import MainlineDht.Rust.FixedVecOwnership

/-!
# The fixed-capacity vector as a list

`ListHeap.step` says what the operations are for: on lists, with their items
handed on as a call would, and only where no operation refuses its arguments.
The vectors follow the lists as long as nothing is appended behind other items,
nothing that was appended is dropped, and no empty `Vec` is appended to a full
vector.  `needsDrop` says whether the items have a destructor; a copy of a
dropped item is then no item any more.
-/

namespace MainlineDht.Rust

open Ownership Sequence Transition

variable {E : Type}

/-- The lists that the vectors of a program stand for. -/
abbrev ListHeap (E : Type) : Type := Ledger (List E) E

/-- A vector shows the items of a list. -/
structure FixedVec.Shows (vec : FixedVec E) (items : List E) : Prop where
  asSlice : vec.asSlice = some items
  len : vec.len = items.length
  isFull : vec.isFull = true ↔ items.length = bucketSize
  index (i : Nat) : i < items.length → vec.index i = items[i]?
  initialised (i : Nat) : i < vec.len → (vec.slot i).isSome

theorem FixedVec.Holds.shows {vec : FixedVec E} {items : List E} (holds : vec.Holds items) :
    vec.Shows items where
  asSlice := holds.asSlice_eq
  len := holds.length_eq
  isFull := holds.isFull_iff
  index i inside := by rw [holds.index_eq inside, List.getElem?_eq_getElem inside]
  initialised i inside := by
    rw [holds.slot_getElem (holds.length_eq ▸ inside)]
    rfl

/-- A program of vectors and its lists, side by side. -/
abbrev VecState (E : Type) : Type := Heap E × ListHeap E

namespace VecState

/-- Neither side has a vector yet. -/
def start : VecState E :=
  (Ledger.empty, Ledger.empty)

/-- No operation has panicked, the caller got the items it should, every vector
shows its list, and items that have a destructor are live. -/
structure Agrees (needsDrop : Bool) (s : VecState E) : Prop where
  returns : s.1.failed = false
  handed : s.1.handed = s.2.handed
  shows (n : Nat) : Option.Rel FixedVec.Shows (s.1.get n) (s.2.get n)
  equal [BEq E] {n k : Nat} {vec other : FixedVec E} {items others : List E} :
    s.1.get n = some vec → s.1.get k = some other → s.2.get n = some items →
      s.2.get k = some others → vec.eq other = some (items == others)
  intact : needsDrop = true → ∀ item ∈ s.2.live id, item ∉ s.1.dropped

/-- An item that is live and dropped has no destructor. -/
theorem Agrees.bits_of_dropped {needsDrop : Bool} {s : VecState E} {item : E}
    (agrees : Agrees needsDrop s) (isLive : item ∈ s.2.live id)
    (isDropped : item ∈ s.1.dropped) : needsDrop = false := by
  rw [← Bool.not_eq_true]
  intro drops
  exact agrees.intact drops item isLive isDropped

end VecState

variable [DecidableEq E]

/-- The steps whose operations accept their arguments. -/
def ListHeap.step : Step (ListHeap E) (VecAction E)
  | m, .new => some (m.add [])
  | m, .push v item =>
      if m.Owns [item] then
        (m.get v).bind fun items =>
          if items.length < bucketSize then some ((m.moveIn [item]).put v (items ++ [item]))
          else none
      else none
  | m, .swapRemove v index =>
      (m.get v).bind fun items =>
        if inside : index < items.length then
          some ((m.put v (Sequence.swapRemove items index)).handOver items[index])
        else none
  | m, .indexMut v index item =>
      if m.Owns [item] then
        (m.get v).bind fun items =>
          if inside : index < items.length then
            some (((m.moveIn [item]).put v (items.set index item)).drop [items[index]])
          else none
      else none
  | m, .append v other =>
      if v = other then none
      else
        (m.get v).bind fun items =>
          (m.get other).bind fun others =>
            if items.length + others.length ≤ bucketSize then
              some ((m.remove other).put v (items ++ others))
            else none
  | m, .appendVec v newItems =>
      if m.Owns newItems then
        (m.get v).bind fun items =>
          if items.length + newItems.length ≤ bucketSize then
            some ((m.moveIn newItems).put v (items ++ newItems))
          else none
      else none
  | m, .drop v => (m.get v).map fun items => (m.remove v).drop items

namespace VecState

/-- A step that the lists and the vectors both take. -/
def step : Step (VecState E) (VecAction E)
  | (h, m), action =>
      (ListHeap.step m action).bind fun m' => (Heap.step h action).map fun h' => (h', m')

/-- Appending behind other items is no plain step, nor is appending items that
are dropped, nor appending an empty `Vec` to a full vector. -/
def Plain (needsDrop : Bool) (s : VecState E) : VecAction E → Prop
  | .append v other => ∀ items others, s.2.get v = some items → s.2.get other = some others →
      others = [] ∨ (items = [] ∧ needsDrop = false)
  | .appendVec v newItems => ∀ items, s.2.get v = some items →
      (newItems = [] ∧ items.length < bucketSize) ∨ (newItems ≠ [] ∧ needsDrop = false)
  | _ => True

instance (needsDrop : Bool) (s : VecState E) : ∀ action, Decidable (Plain needsDrop s action)
  | .append v other => decidable_of_iff
      (∀ items ∈ s.2.get v, ∀ others ∈ s.2.get other,
        others = [] ∨ (items = [] ∧ needsDrop = false))
      ⟨fun held items others found foundOther => held items found others foundOther,
        fun held items found others foundOther => held items others found foundOther⟩
  | .appendVec v newItems => inferInstanceAs (Decidable (∀ items ∈ s.2.get v,
      (newItems = [] ∧ items.length < bucketSize) ∨ (newItems ≠ [] ∧ needsDrop = false)))
  | .new | .push _ _ | .swapRemove _ _ | .indexMut _ _ _ | .drop _ => isTrue trivial

/-- The vectors hold the lists, and the items of the lists are balanced.  Where
items have a destructor, as many have been dropped as should. -/
structure Related (needsDrop : Bool) (flight : List E) (s : VecState E) : Prop where
  failed : s.1.failed = false
  handed : s.1.handed = s.2.handed
  moved : s.1.moved = s.2.moved
  dropped : needsDrop = true → s.1.dropped = s.2.dropped
  count : s.1.containers.length = s.2.containers.length
  holds (n : Nat) : Option.Rel FixedVec.Holds (s.1.get n) (s.2.get n)
  balanced : s.2.Balanced id flight

variable {needsDrop : Bool} {flight flight' : List E} {s s' : VecState E} {h : Heap E}
  {m m' : ListHeap E} {v other index : Nat} {vec otherVec after : FixedVec E}
  {items items' others : List E} {item : E} {action : VecAction E}

namespace Related

theorem found (related : Related needsDrop flight (h, m)) (isList : m.get v = some items) :
    ∃ vec, h.get v = some vec ∧ vec.Holds items := by
  have holds := related.holds v
  rw [isList] at holds
  generalize isVec : h.get v = vec at holds
  cases holds with
  | some holds => exact ⟨_, rfl, holds⟩

theorem agrees (related : Related needsDrop [] s) : Agrees needsDrop s where
  returns := related.failed
  handed := related.handed
  shows n := by
    have holds := related.holds n
    generalize s.1.get n = vec, s.2.get n = items at holds
    cases holds with
    | some holds => exact .some holds.shows
    | none => exact .none
  equal isVec isOther isList isOthers := by
    rcases related.found isList with ⟨_, isVec', holds⟩
    rcases related.found isOthers with ⟨_, isOther', holdsOther⟩
    cases isVec.symm.trans isVec'
    cases isOther.symm.trans isOther'
    exact holds.eq_eq holdsOther
  intact drops item isLive isDropped := by
    rw [related.dropped drops] at isDropped
    have bound := related.balanced.count_le_one item
    have first : 0 < (s.2.live id).count item := List.count_pos_iff.mpr isLive
    have second : 0 < s.2.dropped.count item := List.count_pos_iff.mpr isDropped
    omega

theorem add (related : Related needsDrop flight (h, m)) :
    Related needsDrop flight (h.add FixedVec.new, m.add []) where
  failed := related.failed
  handed := related.handed
  moved := related.moved
  dropped := related.dropped
  count := by
    show (h.containers ++ [_]).length = (m.containers ++ [_]).length
    rw [List.length_append, List.length_append, related.count]
    rfl
  holds n := by
    show Option.Rel _ ((h.add FixedVec.new).get n) ((m.add []).get n)
    rw [Ledger.get_add, Ledger.get_add, related.count]
    split
    · exact .some FixedVec.Holds.new
    · exact related.holds n
  balanced := related.balanced.add rfl

theorem put (related : Related needsDrop flight (h, m)) (isVec : h.get v = some vec)
    (isList : m.get v = some items) (holdsAfter : after.Holds items')
    (exchange : (items' ++ flight').Perm (items ++ flight)) :
    Related needsDrop flight' (h.put v after, m.put v items') where
  failed := related.failed
  handed := related.handed
  moved := related.moved
  dropped := related.dropped
  count := by
    show (h.containers.set _ _).length = (m.containers.set _ _).length
    rw [List.length_set, List.length_set, related.count]
  holds n := by
    show Option.Rel _ ((h.put v after).get n) ((m.put v items').get n)
    rw [Ledger.get_put isVec, Ledger.get_put isList]
    split
    · exact .some holdsAfter
    · exact related.holds n
  balanced := related.balanced.put isList exchange

theorem remove (related : Related needsDrop flight (h, m)) (isList : m.get v = some items) :
    Related needsDrop (items ++ flight) (h.remove v, m.remove v) where
  failed := related.failed
  handed := related.handed
  moved := related.moved
  dropped := related.dropped
  count := by
    show (h.containers.set _ _).length = (m.containers.set _ _).length
    rw [List.length_set, List.length_set, related.count]
  holds n := by
    show Option.Rel _ ((h.remove v).get n) ((m.remove v).get n)
    rw [Ledger.get_remove, Ledger.get_remove]
    split
    · exact .none
    · exact related.holds n
  balanced := related.balanced.remove isList

theorem handOver (related : Related needsDrop (item :: flight) (h, m)) :
    Related needsDrop flight (h.handOver item, m.handOver item) :=
  { related with
    handed := congrArg (item :: ·) related.handed
    balanced := related.balanced.handOver }

theorem drop (related : Related needsDrop (items ++ flight) (h, m)) :
    Related needsDrop flight (h.drop items, m.drop items) :=
  { related with
    dropped := fun drops => congrArg (items ++ ·) (related.dropped drops)
    balanced := related.balanced.drop }

/-- Dropping items without a destructor leaves no trace. -/
theorem dropBits (related : Related needsDrop flight (h, m))
    (bits : needsDrop = true → items = []) : Related needsDrop flight (h.drop items, m) :=
  { related with
    dropped := fun drops => by
      show items ++ h.dropped = m.dropped
      rw [bits drops, List.nil_append]
      exact related.dropped drops }

theorem moveIn (related : Related needsDrop [] (h, m)) (owns : m.Owns items) :
    Related needsDrop items (h.moveIn items, m.moveIn items) :=
  { related with
    handed := congrArg (List.filter fun other => other ∉ items) related.handed
    moved := congrArg (items ++ ·) related.moved
    balanced := related.balanced.moveIn owns }

theorem owns (related : Related needsDrop flight (h, m)) (owns : m.Owns items) :
    h.Owns items := by
  unfold Ledger.Owns at owns ⊢
  rwa [show h.moved = m.moved from related.moved, show h.handed = m.handed from related.handed]

/-! ### Operations -/

theorem push (related : Related needsDrop [] (h, m)) (owns : m.Owns [item])
    (isVec : h.get v = some vec) (isList : m.get v = some items) (holds : vec.Holds items)
    (room : items.length < bucketSize) :
    Related needsDrop []
      (Heap.push h v vec item, (m.moveIn [item]).put v (items ++ [item])) := by
  rcases holds.push room item with ⟨after, pushed, holdsAfter⟩
  rw [Heap.push, pushed]
  exact (related.moveIn owns).put isVec isList holdsAfter (by rw [List.append_nil])

theorem swapRemove (related : Related needsDrop [] (h, m)) (isVec : h.get v = some vec)
    (isList : m.get v = some items) (holds : vec.Holds items) (inside : index < items.length) :
    Related needsDrop []
      (Heap.swapRemove h v vec index,
        (m.put v (Sequence.swapRemove items index)).handOver items[index]) := by
  rcases holds.swapRemove inside with ⟨after, removed, holdsAfter⟩
  rw [Heap.swapRemove, removed]
  apply handOver
  apply related.put isVec isList holdsAfter
  rw [List.append_nil]
  exact (List.perm_append_singleton _ _).trans (cons_swapRemove_perm items inside)

theorem indexMut (related : Related needsDrop [] (h, m)) (owns : m.Owns [item])
    (isVec : h.get v = some vec) (isList : m.get v = some items) (holds : vec.Holds items)
    (inside : index < items.length) :
    Related needsDrop []
      (Heap.indexMut h v vec index item,
        ((m.moveIn [item]).put v (items.set index item)).drop [items[index]]) := by
  rcases holds.indexMut inside item with ⟨after, written, holdsAfter⟩
  rw [Heap.indexMut, holds.index_eq inside, written]
  apply drop
  exact (related.moveIn owns).put isVec isList holdsAfter (set_concat_perm inside item)

theorem dropVec (related : Related needsDrop [] (h, m)) (isList : m.get v = some items)
    (holds : vec.Holds items) :
    Related needsDrop [] (Heap.dropVec h v vec, (m.remove v).drop items) := by
  rw [Heap.dropVec, holds.occupants_eq]
  exact (related.remove isList).drop

/-- Copying to the start is right if one of the two vectors is empty. -/
theorem append (related : Related needsDrop [] (h, m)) (differ : v ≠ other)
    (isVec : h.get v = some vec) (isList : m.get v = some items) (holds : vec.Holds items)
    (isOthers : m.get other = some others) (holdsOther : otherVec.Holds others)
    (plain : others = [] ∨ (items = [] ∧ needsDrop = false)) :
    Related needsDrop []
      (Heap.append h v vec other otherVec, (m.remove other).put v (items ++ others)) := by
  have oneEmpty : items = [] ∨ others = [] := plain.symm.imp_left And.left
  rcases holds.append holdsOther oneEmpty with ⟨after, appended, holdsAfter⟩
  have stillVec : (h.remove other).get v = some vec := by
    rw [Ledger.get_remove, if_neg differ, isVec]
  have stillList : (m.remove other).get v = some items := by
    rw [Ledger.get_remove, if_neg differ, isList]
  rw [Heap.append, appended, holdsOther.occupants_eq, Ledger.settle,
    Ledger.remove_put_comm h after differ]
  apply dropBits
  · apply (related.remove isOthers).put stillVec stillList holdsAfter
    rw [List.append_nil, List.append_nil]
  · intro drops
    rcases plain with none | ⟨_, bits⟩
    · exact none
    · cases drops.symm.trans bits

theorem appendVec {newItems : List E} (related : Related needsDrop [] (h, m))
    (owns : m.Owns newItems) (isVec : h.get v = some vec) (isList : m.get v = some items)
    (holds : vec.Holds items) (fits : items.length + newItems.length ≤ bucketSize)
    (plain : (newItems = [] ∧ items.length < bucketSize) ∨ (newItems ≠ [] ∧ needsDrop = false)) :
    Related needsDrop []
      (Heap.appendVec h v vec newItems, (m.moveIn newItems).put v (items ++ newItems)) := by
  have room : items.length < bucketSize := by
    rcases plain with ⟨_, room⟩ | ⟨nonempty, _⟩
    · exact room
    · have some_in : 0 < newItems.length := List.length_pos_iff.mpr nonempty
      omega
  rcases holds.appendVec room fits with ⟨after, appended, holdsAfter⟩
  rw [Heap.appendVec, appended, Ledger.settle]
  apply dropBits
  · exact (related.moveIn owns).put isVec isList holdsAfter (by rw [List.append_nil])
  · intro drops
    rcases plain with ⟨none, _⟩ | ⟨_, bits⟩
    · exact none
    · cases drops.symm.trans bits

end Related

/-! ## What goes wrong otherwise -/

/-- Behind other items, the appended ones are not where the list has them. -/
theorem Related.plain_of_append (related : Related needsDrop [] (h, m)) (differ : v ≠ other)
    (isVec : h.get v = some vec) (isList : m.get v = some items) (holds : vec.Holds items)
    (isOthers : m.get other = some others) (holdsOther : otherVec.Holds others)
    (fits : items.length + others.length ≤ bucketSize)
    (agrees : Agrees needsDrop
      (Heap.append h v vec other otherVec, (m.remove other).put v (items ++ others))) :
    others = [] ∨ (items = [] ∧ needsDrop = false) := by
  rcases List.eq_nil_or_concat others with none | ⟨_, _, isConcat⟩
  · exact Or.inl none
  · right
    have some_in : 0 < others.length := by
      rw [isConcat, List.length_concat]
      exact Nat.succ_pos _
    have member : others[0] ∈ others := List.getElem_mem some_in
    have stillList : (m.remove other).get v = some items := by
      rw [Ledger.get_remove, if_neg differ, isList]
    have isAppended : ((m.remove other).put v (items ++ others)).get v = some (items ++ others) :=
      (Ledger.get_put stillList _ v).trans (if_pos rfl)
    constructor
    · by_contra nonempty
      have front : 0 < items.length := List.length_pos_iff.mpr nonempty
      have enough : vec.emptySlots ≥ otherVec.length := by
        rwa [holds.emptySlots_ge_iff, holdsOther.length_eq]
      rcases FixedVec.exists_append enough with ⟨after, appended⟩
      have shows := agrees.shows v
      rw [Heap.get_append isVec differ appended, isAppended] at shows
      cases shows with
      | some shows =>
          have first := shows.index 0 (by rw [List.length_append]; omega)
          rw [List.getElem?_append_left front, List.getElem?_eq_getElem front] at first
          have copied := (FixedVec.of_append appended).2.2 0
            (holdsOther.length_eq ▸ some_in) (by decide)
          rw [FixedVec.slot_of_index first, holdsOther.slot_getElem some_in] at copied
          apply related.balanced.not_mem_of_ne isList isOthers differ (List.getElem_mem front)
          rw [Option.some.inj copied]
          exact member
    · have isLive : others[0] ∈ ((m.remove other).put v (items ++ others)).live id :=
        Ledger.mem_live.mpr ⟨v, _, isAppended, List.mem_append_right _ member⟩
      have isDropped : others[0] ∈ (Heap.append h v vec other otherVec).dropped :=
        List.mem_append_left _ (holdsOther.occupants_eq ▸ member)
      exact agrees.bits_of_dropped isLive isDropped

/-- An empty `Vec` makes a full vector panic, another is dropped. -/
theorem Related.plain_of_appendVec {newItems : List E} (isList : m.get v = some items)
    (holds : vec.Holds items)
    (agrees : Agrees needsDrop
      (Heap.appendVec h v vec newItems, (m.moveIn newItems).put v (items ++ newItems))) :
    (newItems = [] ∧ items.length < bucketSize) ∨ (newItems ≠ [] ∧ needsDrop = false) := by
  by_cases empty : newItems = []
  · left
    constructor
    · exact empty
    · by_contra noRoom
      have full : vec.length = bucketSize :=
        holds.length_eq.trans (Nat.le_antisymm holds.capacity (Nat.le_of_not_lt noRoom))
      have returns := agrees.returns
      rw [Heap.appendVec, FixedVec.appendVec_of_full full] at returns
      cases returns
  · right
    constructor
    · exact empty
    · have some_in : 0 < newItems.length := List.length_pos_iff.mpr empty
      have member : newItems[0] ∈ newItems := List.getElem_mem some_in
      have isAppended : ((m.moveIn newItems).put v (items ++ newItems)).get v =
          some (items ++ newItems) :=
        (Ledger.get_put (l := m.moveIn newItems) isList _ v).trans (if_pos rfl)
      have isLive : newItems[0] ∈ ((m.moveIn newItems).put v (items ++ newItems)).live id :=
        Ledger.mem_live.mpr ⟨v, _, isAppended, List.mem_append_right _ member⟩
      have isDropped : newItems[0] ∈ (Heap.appendVec h v vec newItems).dropped :=
        List.mem_append_left _ member
      exact agrees.bits_of_dropped isLive isDropped

/-! ## Steps -/

/-- What a step of the lists does, and when it is possible. -/
inductive ListCase (m : ListHeap E) : VecAction E → ListHeap E → Prop
  | new : ListCase m .new (m.add [])
  | push {v : Nat} {item : E} {items : List E} : m.Owns [item] → m.get v = some items →
      items.length < bucketSize →
      ListCase m (.push v item) ((m.moveIn [item]).put v (items ++ [item]))
  | swapRemove {v index : Nat} {items : List E} : m.get v = some items →
      (inside : index < items.length) →
      ListCase m (.swapRemove v index)
        ((m.put v (Sequence.swapRemove items index)).handOver items[index])
  | indexMut {v index : Nat} {item : E} {items : List E} : m.Owns [item] → m.get v = some items →
      (inside : index < items.length) →
      ListCase m (.indexMut v index item)
        (((m.moveIn [item]).put v (items.set index item)).drop [items[index]])
  | append {v other : Nat} {items others : List E} : v ≠ other → m.get v = some items →
      m.get other = some others → items.length + others.length ≤ bucketSize →
      ListCase m (.append v other) ((m.remove other).put v (items ++ others))
  | appendVec {v : Nat} {newItems items : List E} : m.Owns newItems → m.get v = some items →
      items.length + newItems.length ≤ bucketSize →
      ListCase m (.appendVec v newItems) ((m.moveIn newItems).put v (items ++ newItems))
  | drop {v : Nat} {items : List E} : m.get v = some items →
      ListCase m (.drop v) ((m.remove v).drop items)

theorem listCase_of_step (stepped : ListHeap.step m action = some m') : ListCase m action m' := by
  cases action with
  | new =>
      cases stepped
      exact .new
  | push v item =>
      rcases Option.ite_none_right_eq_some.mp stepped with ⟨owns, called⟩
      rcases Option.bind_eq_some_iff.mp called with ⟨items, isList, returned⟩
      rcases Option.ite_none_right_eq_some.mp returned with ⟨room, same⟩
      cases same
      exact .push owns isList room
  | swapRemove v index =>
      rcases Option.bind_eq_some_iff.mp stepped with ⟨items, isList, returned⟩
      rcases Option.dite_none_right_eq_some.mp returned with ⟨inside, same⟩
      cases same
      exact .swapRemove isList inside
  | indexMut v index item =>
      rcases Option.ite_none_right_eq_some.mp stepped with ⟨owns, called⟩
      rcases Option.bind_eq_some_iff.mp called with ⟨items, isList, returned⟩
      rcases Option.dite_none_right_eq_some.mp returned with ⟨inside, same⟩
      cases same
      exact .indexMut owns isList inside
  | append v other =>
      rcases Option.ite_none_left_eq_some.mp stepped with ⟨differ, called⟩
      rcases Option.bind_eq_some_iff.mp called with ⟨items, isList, calledOther⟩
      rcases Option.bind_eq_some_iff.mp calledOther with ⟨others, isOthers, returned⟩
      rcases Option.ite_none_right_eq_some.mp returned with ⟨fits, same⟩
      cases same
      exact .append differ isList isOthers fits
  | appendVec v newItems =>
      rcases Option.ite_none_right_eq_some.mp stepped with ⟨owns, called⟩
      rcases Option.bind_eq_some_iff.mp called with ⟨items, isList, returned⟩
      rcases Option.ite_none_right_eq_some.mp returned with ⟨fits, same⟩
      cases same
      exact .appendVec owns isList fits
  | drop v =>
      rcases Option.map_eq_some_iff.mp stepped with ⟨items, isList, rfl⟩
      exact .drop isList

/-- The vectors take every step that the lists take, and agree with them after it
exactly if it was a plain one. -/
theorem Related.performs (related : Related needsDrop [] (h, m)) (stepped : ListCase m action m') :
    ∃ h', Heap.step h action = some h' ∧
      (Plain needsDrop (h, m) action → Related needsDrop [] (h', m')) ∧
      (Agrees needsDrop (h', m') → Plain needsDrop (h, m) action) := by
  cases stepped with
  | new => exact ⟨_, rfl, fun _ => related.add, fun _ => trivial⟩
  | push owns isList room =>
      rcases related.found isList with ⟨vec, isVec, holds⟩
      exact ⟨_, Heap.step_iff.mpr (.push (related.owns owns) isVec),
        fun _ => related.push owns isVec isList holds room, fun _ => trivial⟩
  | swapRemove isList inside =>
      rcases related.found isList with ⟨vec, isVec, holds⟩
      exact ⟨_, Heap.step_iff.mpr (.swapRemove isVec),
        fun _ => related.swapRemove isVec isList holds inside, fun _ => trivial⟩
  | indexMut owns isList inside =>
      rcases related.found isList with ⟨vec, isVec, holds⟩
      exact ⟨_, Heap.step_iff.mpr (.indexMut (related.owns owns) isVec),
        fun _ => related.indexMut owns isVec isList holds inside, fun _ => trivial⟩
  | append differ isList isOthers fits =>
      rcases related.found isList with ⟨vec, isVec, holds⟩
      rcases related.found isOthers with ⟨otherVec, isOther, holdsOther⟩
      refine ⟨_, Heap.step_iff.mpr (.append differ isVec isOther), ?_, ?_⟩
      · intro plain
        exact related.append differ isVec isList holds isOthers holdsOther
          (plain _ _ isList isOthers)
      · intro agrees items others isList' isOthers'
        cases isList.symm.trans isList'
        cases isOthers.symm.trans isOthers'
        exact related.plain_of_append differ isVec isList holds isOthers holdsOther fits agrees
  | appendVec owns isList fits =>
      rcases related.found isList with ⟨vec, isVec, holds⟩
      refine ⟨_, Heap.step_iff.mpr (.appendVec (related.owns owns) isVec), ?_, ?_⟩
      · intro plain
        exact related.appendVec owns isVec isList holds fits (plain _ isList)
      · intro agrees items isList'
        cases isList.symm.trans isList'
        exact Related.plain_of_appendVec isList holds agrees
  | drop isList =>
      rcases related.found isList with ⟨vec, isVec, holds⟩
      exact ⟨_, Heap.step_iff.mpr (.drop isVec), fun _ => related.dropVec isList holds,
        fun _ => trivial⟩

theorem related_start : Related needsDrop [] (start : VecState E) where
  failed := rfl
  handed := rfl
  moved := rfl
  dropped _ := rfl
  count := rfl
  holds _ := .none
  balanced := Ledger.balanced_empty

theorem Related.step (related : Related needsDrop [] s) (stepped : step s action = some s') :
    (Plain needsDrop s action → Related needsDrop [] s') ∧
      (Agrees needsDrop s' → Plain needsDrop s action) := by
  rcases s with ⟨h, m⟩
  rcases Option.bind_eq_some_iff.mp stepped with ⟨m', listStep, performed⟩
  rcases Option.map_eq_some_iff.mp performed with ⟨h', heapStep, rfl⟩
  rcases related.performs (listCase_of_step listStep) with ⟨performedHeap, isStep, plain, agrees⟩
  cases heapStep.symm.trans isStep
  exact ⟨plain, agrees⟩

/-- In every run of legal operations: the vectors agree with the lists throughout
exactly if all steps are plain, and after plain steps every legal operation can
go on. -/
theorem visits_agrees_iff (needsDrop : Bool) (history : List (VecState E × VecAction E))
    (s : VecState E) (run : Run step start history s) :
    (Visits history s (Agrees needsDrop) ↔ Guarded history (Plain needsDrop)) ∧
      (Guarded history (Plain needsDrop) → ∀ action m',
        ListHeap.step s.2 action = some m' → ∃ h', step s action = some (h', m')) := by
  have keeps {before after : VecState E} {action : VecAction E}
      (related : Related needsDrop [] before) (_ : Agrees needsDrop before)
      (plain : Plain needsDrop before action) (stepped : step before action = some after) :
      Related needsDrop [] after := (related.step stepped).1 plain
  have exactly {before after : VecState E} {action : VecAction E}
      (related : Related needsDrop [] before) (_ : Agrees needsDrop before)
      (stepped : step before action = some after) :
      Agrees needsDrop after ↔ Plain needsDrop before action :=
    ⟨(related.step stepped).2, fun plain => ((related.step stepped).1 plain).agrees⟩
  rcases run.visits_iff_guarded_of_support related_start related_start.agrees keeps exactly with
    ⟨visits_iff, lasts⟩
  constructor
  · exact visits_iff
  · intro guarded action m' listStep
    rcases s with ⟨h, m⟩
    rcases (lasts guarded).performs (listCase_of_step listStep) with ⟨h', heapStep, _⟩
    refine ⟨h', ?_⟩
    rw [step, show ListHeap.step m action = some m' from listStep, Option.bind_some, heapStep]
    rfl

/-- Two items are pushed and appended to an empty vector, a `Vec` behind them, and
one of the items is removed again. -/
def moveOver : List (VecAction Nat) :=
  [.new, .push 0 7, .push 0 8, .new, .append 1 0, .appendVec 1 [9], .swapRemove 1 0]

/-- The vectors agree with the lists throughout. -/
theorem visits_agrees_iff_moveOver :
    ∃ history s, history.map Prod.snd = moveOver.reverse ∧
      Run step (start : VecState Nat) history s ∧ Visits history s (Agrees false) := by
  have goes : (perform (restrict (Plain false) step) (start : VecState Nat) moveOver).isSome := by
    decide +kernel
  rcases Option.isSome_iff_exists.mp goes with ⟨s, performed⟩
  rcases Run.append .initial performed with ⟨history, restricted, taken⟩
  rw [List.append_nil] at restricted
  rcases restricted.of_restrict with ⟨run, plain⟩
  exact ⟨history, s, taken, run, (visits_agrees_iff false history s run).1.mpr plain⟩

/-- Two vectors with an item each, and one of them appended to the other. -/
def appendPair : List (VecAction Nat) :=
  [.new, .push 0 7, .new, .push 1 8, .append 0 1]

/-- The appended item takes the place of the other one. -/
theorem append_overwrites :
    ∃ history s, Run step (start : VecState Nat) history s ∧
      ¬ Visits history s (Agrees false) := by
  have broken : (perform step start appendPair).any (fun s =>
      decide ((s.1.get 0).bind FixedVec.asSlice ≠ s.2.get 0)) = true := by decide +kernel
  rcases (Option.any_eq_true _ _).mp broken with ⟨s, performed, differs⟩
  rcases Run.append .initial performed with ⟨history, run, _⟩
  refine ⟨_, s, run, ?_⟩
  rintro ⟨last, _⟩
  apply of_decide_eq_true differs
  have shows := last.shows 0
  generalize s.1.get 0 = vec, s.2.get 0 = items at shows
  cases shows with
  | some shows => exact shows.asSlice
  | none => rfl

end VecState

end MainlineDht.Rust
