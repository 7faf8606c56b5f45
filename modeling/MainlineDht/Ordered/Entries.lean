import Mathlib.Data.List.Lex
import Mathlib.Order.Lattice

/-!
# Finite maps as sorted entry lists

A finite map over a linearly ordered key type is kept as the list of its
entries in strictly increasing key order.  The order makes the representation
unique, so that equality of maps is equality of lists, and walking the list is
walking the map in key order.
-/

namespace MainlineDht.Ordered.Entries

universe u v

variable {K : Type u} {V : Type v} [LinearOrder K]

/-- Keys strictly increase along the list. -/
def Sorted (entries : List (K × V)) : Prop :=
  entries.Pairwise fun first second => first.1 < second.1

/-- Bind `key` to `value`, replacing an earlier binding. -/
def insert (key : K) (value : V) : List (K × V) → List (K × V)
  | [] => [(key, value)]
  | (other, held) :: rest =>
      if key < other then (key, value) :: (other, held) :: rest
      else if other < key then (other, held) :: insert key value rest
      else (key, value) :: rest

/-- Insert bindings from left to right; the last binding of a key wins. -/
def insertAll : List (K × V) → List (K × V) → List (K × V)
  | [], entries => entries
  | (key, value) :: rest, entries => insertAll rest (insert key value entries)

/-- The map of a list of bindings. -/
def ofList (bindings : List (K × V)) : List (K × V) :=
  insertAll bindings []

/-- The value bound to `key`. -/
def lookup (key : K) : List (K × V) → Option V
  | [] => none
  | (other, held) :: rest => if key = other then some held else lookup key rest

@[simp]
theorem insertAll_nil (entries : List (K × V)) : insertAll [] entries = entries :=
  rfl

@[simp]
theorem insertAll_cons (key : K) (value : V) (rest entries : List (K × V)) :
    insertAll ((key, value) :: rest) entries = insertAll rest (insert key value entries) :=
  rfl

@[simp]
theorem sorted_nil : Sorted ([] : List (K × V)) :=
  List.Pairwise.nil

theorem mem_insert {key : K} {value : V} {entry : K × V} {entries : List (K × V)}
    (member : entry ∈ insert key value entries) :
    entry = (key, value) ∨ entry ∈ entries := by
  induction entries with
  | nil => simpa [insert] using member
  | cons head rest ih =>
      rcases head with ⟨other, held⟩
      rw [insert] at member
      split at member
      · exact List.mem_cons.mp member
      · split at member
        · rcases List.mem_cons.mp member with rfl | member
          · exact Or.inr List.mem_cons_self
          · exact (ih member).imp_right (List.mem_cons_of_mem _)
        · rcases List.mem_cons.mp member with rfl | member
          · exact Or.inl rfl
          · exact Or.inr (List.mem_cons_of_mem _ member)

/-- Insertion keeps the keys strictly increasing. -/
theorem insert_sorted {entries : List (K × V)} (sorted : Sorted entries)
    (key : K) (value : V) : Sorted (insert key value entries) := by
  induction entries with
  | nil => exact List.pairwise_singleton _ _
  | cons head rest ih =>
      rcases head with ⟨other, held⟩
      obtain ⟨above, restSorted⟩ := List.pairwise_cons.mp sorted
      rw [insert]
      split
      · rename_i before
        refine List.pairwise_cons.mpr ⟨?_, sorted⟩
        intro entry member
        rcases List.mem_cons.mp member with rfl | member
        · exact before
        · exact lt_trans before (above entry member)
      · split
        · rename_i after
          refine List.pairwise_cons.mpr ⟨?_, ih restSorted⟩
          intro entry member
          rcases mem_insert member with rfl | member
          · exact after
          · exact above entry member
        · rename_i notBefore notAfter
          have same : other = key := le_antisymm (not_lt.mp notBefore) (not_lt.mp notAfter)
          subst same
          exact List.pairwise_cons.mpr ⟨above, restSorted⟩

theorem insertAll_sorted (bindings : List (K × V)) {entries : List (K × V)}
    (sorted : Sorted entries) : Sorted (insertAll bindings entries) := by
  induction bindings generalizing entries with
  | nil => exact sorted
  | cons binding rest ih => exact ih (insert_sorted sorted binding.1 binding.2)

theorem ofList_sorted (bindings : List (K × V)) : Sorted (ofList bindings) :=
  insertAll_sorted bindings sorted_nil

theorem mem_insertAll {entry : K × V} (bindings : List (K × V)) {entries : List (K × V)}
    (member : entry ∈ insertAll bindings entries) : entry ∈ bindings ∨ entry ∈ entries := by
  induction bindings generalizing entries with
  | nil => exact Or.inr member
  | cons binding rest ih =>
      rcases ih member with member | member
      · exact Or.inl (List.mem_cons_of_mem _ member)
      · rcases mem_insert member with rfl | member
        · exact Or.inl List.mem_cons_self
        · exact Or.inr member

/-- A map built from bindings holds nothing but bindings it was given. -/
theorem mem_of_mem_ofList {entry : K × V} {bindings : List (K × V)}
    (member : entry ∈ ofList bindings) : entry ∈ bindings := by
  rcases mem_insertAll bindings member with member | member
  · exact member
  · cases member

/-- Inserting a key above all others appends its entry. -/
theorem insert_of_above {key : K} {value : V} {entries : List (K × V)}
    (above : ∀ entry ∈ entries, entry.1 < key) :
    insert key value entries = entries ++ [(key, value)] := by
  induction entries with
  | nil => rfl
  | cons head rest ih =>
      rcases head with ⟨other, held⟩
      have after : other < key := above _ List.mem_cons_self
      rw [insert, if_neg (lt_asymm after), if_pos after,
        ih fun entry member => above entry (List.mem_cons_of_mem _ member)]
      rfl

theorem insertAll_of_sorted {bindings entries : List (K × V)}
    (sorted : Sorted (entries ++ bindings)) : insertAll bindings entries = entries ++ bindings := by
  induction bindings generalizing entries with
  | nil => exact (List.append_nil entries).symm
  | cons binding rest ih =>
      have above : ∀ entry ∈ entries, entry.1 < binding.1 := fun entry member =>
        (List.pairwise_append.mp sorted).2.2 entry member binding List.mem_cons_self
      rw [insertAll, insert_of_above above, ih (by simpa using sorted)]
      simp

/-- Building a map from bindings already in key order gives them back. -/
theorem ofList_eq_self {entries : List (K × V)} (sorted : Sorted entries) :
    ofList entries = entries :=
  insertAll_of_sorted sorted

/-- Every entry of a sorted list is what its key is bound to. -/
theorem lookup_of_mem {key : K} {value : V} {entries : List (K × V)} (sorted : Sorted entries)
    (member : (key, value) ∈ entries) : lookup key entries = some value := by
  induction entries with
  | nil => cases member
  | cons head rest ih =>
      rcases head with ⟨other, held⟩
      obtain ⟨above, restSorted⟩ := List.pairwise_cons.mp sorted
      rcases List.mem_cons.mp member with same | member
      · cases same
        exact if_pos rfl
      · rw [lookup, if_neg (ne_of_gt (above _ member))]
        exact ih restSorted member

/-- What a key is bound to is an entry. -/
theorem mem_of_lookup {key : K} {value : V} {entries : List (K × V)}
    (bound : lookup key entries = some value) : (key, value) ∈ entries := by
  induction entries with
  | nil => cases bound
  | cons head rest ih =>
      rcases head with ⟨other, held⟩
      rw [lookup] at bound
      split at bound
      · rename_i same
        cases bound
        rw [same]
        exact List.mem_cons_self
      · exact List.mem_cons_of_mem _ (ih bound)

theorem lookup_insert (key other : K) (value : V) (entries : List (K × V)) :
    lookup other (insert key value entries) =
      if other = key then some value else lookup other entries := by
  induction entries with
  | nil => rfl
  | cons head rest ih =>
      rcases head with ⟨first, held⟩
      rw [insert]
      split
      · rfl
      · split
        · rename_i after
          rw [lookup, lookup, ih]
          by_cases same : other = key
          · subst same
            rw [if_neg (ne_of_gt after), if_pos rfl, if_pos rfl]
          · rw [if_neg same, if_neg same]
        · rename_i notBefore notAfter
          have same : first = key := le_antisymm (not_lt.mp notBefore) (not_lt.mp notAfter)
          subst same
          rw [lookup, lookup]
          split <;> rfl

/-- Looking up in a part of the map that is chosen by keys. -/
theorem lookup_filter (chosen : K → Bool) (key : K) (entries : List (K × V)) :
    lookup key (entries.filter fun entry => chosen entry.1) =
      if chosen key then lookup key entries else none := by
  induction entries with
  | nil => simp [lookup]
  | cons head rest ih =>
      rcases head with ⟨other, held⟩
      rw [List.filter_cons]
      by_cases same : key = other
      · subst same
        by_cases kept : chosen key = true
        · rw [if_pos kept, if_pos kept, lookup, lookup, if_pos rfl, if_pos rfl]
        · rw [if_neg kept, if_neg kept, ih, if_neg kept]
      · rw [lookup, if_neg same]
        split
        · rw [lookup, if_neg same, ih]
        · exact ih

/-- Maps that bind keys alike are the same. -/
theorem ext_lookup {first second : List (K × V)} (sorted : Sorted first)
    (sortedSecond : Sorted second) (same : ∀ key, lookup key first = lookup key second) :
    first = second := by
  have distinct {entries : List (K × V)} (sorted : Sorted entries) : entries.Nodup :=
    sorted.imp fun below => by
      rintro rfl
      exact lt_irrefl _ below
  have perm : first.Perm second := by
    apply (List.perm_ext_iff_of_nodup (distinct sorted) (distinct sortedSecond)).mpr
    rintro ⟨key, value⟩
    constructor
    · intro member
      exact mem_of_lookup ((same key).symm.trans (lookup_of_mem sorted member))
    · intro member
      exact mem_of_lookup ((same key).trans (lookup_of_mem sortedSecond member))
  apply List.Perm.eq_of_pairwise _ sorted sortedSecond perm
  intro entry other _ _ below above
  exact absurd above (lt_asymm below)

theorem lookup_map {W : Type v} (f : V → W) (key : K) (entries : List (K × V)) :
    lookup key (entries.map fun entry => (entry.1, f entry.2)) = (lookup key entries).map f := by
  induction entries with
  | nil => rfl
  | cons head rest ih =>
      rcases head with ⟨other, held⟩
      rw [List.map_cons, lookup, lookup]
      split
      · rfl
      · exact ih

end MainlineDht.Ordered.Entries
