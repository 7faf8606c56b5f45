import Mathlib.Data.List.Induction
import Mathlib.Data.List.Nodup
import Mathlib.Order.Bounds.Basic

/-!
# Buckets by depth, in closed form

Items arrive one after the other; each has a key and a depth.  Buckets hold at
most `k` items: one bucket for each small depth, and a last one for everything
deeper, which is kept fine enough to never overflow.

`reference` writes such a table down as a function of the items that have
arrived, with no mention of how it is maintained.  The equations at the end say
how it changes when an item arrives and when the last bucket is divided; an
implementation is correct once each of its steps is one of them.
-/

namespace MainlineDht.Buckets

universe u v

variable {A : Type u} {K : Type v}

/-! ## First arrivals -/

section Firsts

variable [DecidableEq K]

/-- The first item of every key, in order of arrival. -/
def firsts (key : A → K) (offered : List A) : List A :=
  offered.foldl (fun kept item => if key item ∈ kept.map key then kept else kept ++ [item]) []

variable (key : A → K)

theorem firsts_concat (offered : List A) (item : A) :
    firsts key (offered ++ [item]) =
      if key item ∈ (firsts key offered).map key then firsts key offered
      else firsts key offered ++ [item] := by
  simp [firsts, List.foldl_append]

/-- No key occurs twice among the first arrivals. -/
theorem nodup_keys_firsts (offered : List A) : ((firsts key offered).map key).Nodup := by
  induction offered using List.reverseRecOn with
  | nil => exact List.nodup_nil
  | append_singleton offered item ih =>
      rw [firsts_concat]
      split
      · exact ih
      · rename_i new
        rw [List.map_append, List.map_singleton]
        exact List.nodup_append.mpr ⟨ih, List.nodup_singleton _, by
          rintro name member _ singleton rfl
          exact new (List.mem_singleton.mp singleton ▸ member)⟩

/-- Items with different keys all count. -/
theorem firsts_of_nodup {offered : List A} (distinct : (offered.map key).Nodup) :
    firsts key offered = offered := by
  induction offered using List.reverseRecOn with
  | nil => rfl
  | append_singleton offered item ih =>
      rw [List.map_append, List.nodup_append'] at distinct
      have new : key item ∉ offered.map key :=
        fun known => distinct.2.2 known (List.mem_singleton_self _)
      rw [firsts_concat, ih distinct.1, if_neg new]

/-- First arrivals have been offered. -/
theorem firsts_subset (offered : List A) : firsts key offered ⊆ offered := by
  induction offered using List.reverseRecOn with
  | nil => exact List.Subset.refl _
  | append_singleton offered item ih =>
      rw [firsts_concat]
      split
      · exact List.Subset.trans ih (List.subset_append_left _ _)
      · exact List.append_subset.mpr
          ⟨List.Subset.trans ih (List.subset_append_left _ _), List.subset_append_right _ _⟩

/-- Every key that was offered has a first arrival. -/
theorem mem_keys_firsts (offered : List A) (name : K) :
    name ∈ (firsts key offered).map key ↔ name ∈ offered.map key := by
  induction offered using List.reverseRecOn generalizing name with
  | nil => rfl
  | append_singleton offered item ih =>
      rw [firsts_concat]
      by_cases known : key item ∈ (firsts key offered).map key
      · rw [if_pos known, List.map_append, List.mem_append, ih]
        constructor
        · exact Or.inl
        · rintro (before | now)
          · exact before
          · rw [List.map_singleton, List.mem_singleton] at now
            rw [now]
            exact (ih (key item)).mp known
      · rw [if_neg known, List.map_append, List.map_append, List.mem_append, List.mem_append, ih]

/-- First arrivals stay first when more arrives. -/
theorem firsts_extend (offered more : List A) :
    firsts key offered <+: firsts key (offered ++ more) := by
  induction more using List.reverseRecOn with
  | nil => exact (List.append_nil offered).symm ▸ List.prefix_rfl
  | append_singleton more item ih =>
      rw [← List.append_assoc, firsts_concat]
      split
      · exact ih
      · exact ih.trans (List.prefix_append _ _)

/-- The keys of the first arrivals, as a set, are those that were offered. -/
theorem perm_keys_firsts {offered others : List A}
    (same : ∀ name, name ∈ offered.map key ↔ name ∈ others.map key) :
    ((firsts key offered).map key).Perm ((firsts key others).map key) := by
  apply (List.perm_ext_iff_of_nodup (nodup_keys_firsts key offered)
    (nodup_keys_firsts key others)).mpr
  intro name
  rw [mem_keys_firsts, mem_keys_firsts, same]

end Firsts

/-! ## The closed form -/

section Reference

variable (k : Nat) (depth : A → Nat)

/-- The items of one depth. -/
def level (items : List A) (i : Nat) : List A :=
  items.filter fun item => depth item = i

/-- The items from one depth on. -/
def deep (items : List A) (m : Nat) : List A :=
  items.filter fun item => m ≤ depth item

/-- One bucket for each depth below `m`, with the first `k` items there, and one
for everything else. -/
def reference (items : List A) (m : Nat) : List (List A) :=
  (List.range m).map (fun i => (level depth items i).take k) ++ [deep depth items m]

/-- No coarser division would keep the last bucket within `k` items. -/
def Divided (items : List A) (m : Nat) : Prop :=
  ∀ i < m, k < (deep depth items i).length

variable {k depth} {items : List A} {item : A} {i m : Nat}

@[simp]
theorem length_reference : (reference k depth items m).length = m + 1 := by
  simp [reference]

theorem reference_getElem?_level (below : i < m) :
    (reference k depth items m)[i]? = some ((level depth items i).take k) := by
  rw [reference, List.getElem?_append_left (by simpa using below), List.getElem?_map,
    List.getElem?_range below]
  rfl

@[simp]
theorem reference_getElem?_last :
    (reference k depth items m)[m]? = some (deep depth items m) := by
  rw [reference, List.getElem?_append_right (by simp)]
  simp

theorem level_append (more : List A) :
    level depth (items ++ more) i = level depth items i ++ level depth more i :=
  List.filter_append _ _

theorem level_concat_self : level depth (items ++ [item]) (depth item) =
    level depth items (depth item) ++ [item] := by
  simp [level]

theorem level_concat_of_ne (other : depth item ≠ i) :
    level depth (items ++ [item]) i = level depth items i := by
  simp [level, other]

theorem deep_concat_of_le (within : m ≤ depth item) :
    deep depth (items ++ [item]) m = deep depth items m ++ [item] := by
  simp [deep, within]

theorem deep_concat_of_lt (outside : depth item < m) :
    deep depth (items ++ [item]) m = deep depth items m := by
  simp [deep, Nat.not_le_of_lt outside]

/-- Dividing the items from depth `m` on by whether they go deeper. -/
theorem level_eq_filter_deep :
    level depth items m = (deep depth items m).filter fun item => ¬ m + 1 ≤ depth item := by
  rw [level, deep, List.filter_filter]
  apply List.filter_congr
  intro item _
  simp only [← Bool.decide_and, decide_eq_decide]
  omega

theorem deep_succ_eq_filter_deep :
    deep depth items (m + 1) = (deep depth items m).filter fun item => m + 1 ≤ depth item := by
  rw [deep, deep, List.filter_filter]
  apply List.filter_congr
  intro item _
  simp only [← Bool.decide_and, decide_eq_decide]
  omega

theorem length_level_le_deep (from_m : m ≤ i) :
    (level depth items i).length ≤ (deep depth items m).length := by
  apply List.Sublist.length_le
  apply List.monotone_filter_right
  intro item isLevel
  simp only [decide_eq_true_eq] at isLevel ⊢
  omega

theorem length_deep_anti (lower : m ≤ i) :
    (deep depth items i).length ≤ (deep depth items m).length := by
  apply List.Sublist.length_le
  apply List.monotone_filter_right
  intro item isDeep
  simp only [decide_eq_true_eq] at isDeep ⊢
  omega

/-- A division is the coarsest one when it keeps the last bucket within `k` and
none coarser does. -/
theorem isLeast_iff :
    IsLeast {m | (deep depth items m).length ≤ k} m ↔
      (deep depth items m).length ≤ k ∧ Divided k depth items m := by
  constructor
  · rintro ⟨fits, least⟩
    constructor
    · exact fits
    · intro i below
      by_contra small
      exact Nat.not_le_of_lt below (least (Nat.le_of_not_lt small))
  · rintro ⟨fits, divided⟩
    constructor
    · exact fits
    · intro i small
      by_contra below
      exact Nat.not_le_of_lt (divided i (Nat.lt_of_not_le below)) small

theorem Divided.concat (divided : Divided k depth items m) (item : A) :
    Divided k depth (items ++ [item]) m := by
  intro i below
  apply (divided i below).trans_le
  apply List.Sublist.length_le
  exact (List.sublist_append_left items [item]).filter _

/-- The closed form, bucket by bucket. -/
theorem eq_reference_iff {table : List (List A)} :
    table = reference k depth items m ↔
      table.length = m + 1 ∧ (∀ i < m, table[i]? = some ((level depth items i).take k)) ∧
        table[m]? = some (deep depth items m) := by
  constructor
  · rintro rfl
    exact ⟨length_reference, fun i below => reference_getElem?_level below,
      reference_getElem?_last⟩
  · rintro ⟨lengths, levels, last⟩
    apply List.ext_getElem?
    intro i
    rcases Nat.lt_trichotomy i m with below | rfl | above
    · rw [levels i below, reference_getElem?_level below]
    · rw [last, reference_getElem?_last]
    · rw [List.getElem?_eq_none (by omega), List.getElem?_eq_none (by simp; omega)]

/-! ## What the closed form holds -/

theorem mem_level {member : A} : member ∈ level depth items i ↔ member ∈ items ∧ depth member = i := by
  simp [level]

theorem mem_deep {member : A} : member ∈ deep depth items m ↔ member ∈ items ∧ m ≤ depth member := by
  simp [deep]

theorem mem_reference {bucket : List A} :
    bucket ∈ reference k depth items m ↔
      (∃ i < m, bucket = (level depth items i).take k) ∨ bucket = deep depth items m := by
  simp [reference, eq_comm]

/-- No bucket exceeds `k`. -/
theorem length_le_of_mem_reference (fits : (deep depth items m).length ≤ k) {bucket : List A}
    (member : bucket ∈ reference k depth items m) : bucket.length ≤ k := by
  rcases mem_reference.mp member with ⟨i, _, rfl⟩ | rfl
  · exact List.length_take_le _ _
  · exact fits

/-- An item is in the table when it is among the first `k` of its depth. -/
theorem mem_flatten_reference (fits : (deep depth items m).length ≤ k) {member : A} :
    member ∈ (reference k depth items m).flatten ↔
      member ∈ (level depth items (depth member)).take k := by
  rw [List.mem_flatten]
  constructor
  · rintro ⟨bucket, isBucket, inside⟩
    rcases mem_reference.mp isBucket with ⟨i, _, rfl⟩ | rfl
    · have own := (mem_level.mp (List.mem_of_mem_take inside)).2
      rwa [own]
    · obtain ⟨arrived, within⟩ := mem_deep.mp inside
      rw [List.take_of_length_le ((length_level_le_deep within).trans fits)]
      exact mem_level.mpr ⟨arrived, rfl⟩
  · intro first
    by_cases below : depth member < m
    · exact ⟨_, mem_reference.mpr (Or.inl ⟨_, below, rfl⟩), first⟩
    · have arrived := (mem_level.mp (List.mem_of_mem_take first)).1
      exact ⟨_, mem_reference.mpr (Or.inr rfl), mem_deep.mpr ⟨arrived, Nat.le_of_not_lt below⟩⟩

/-- An item is in the bucket of its depth, or in the last one if that is deeper
than the division. -/
theorem exists_bucket_of_mem_flatten {member : A}
    (held : member ∈ (reference k depth items m).flatten) :
    ∃ bucket, (reference k depth items m)[min (depth member) m]? = some bucket ∧
      member ∈ bucket := by
  rcases List.mem_flatten.mp held with ⟨bucket, isBucket, inside⟩
  refine ⟨bucket, ?_, inside⟩
  rcases mem_reference.mp isBucket with ⟨i, below, rfl⟩ | rfl
  · have own := (mem_level.mp (List.mem_of_mem_take inside)).2
    rw [own, Nat.min_eq_left below.le, reference_getElem?_level below]
  · rw [Nat.min_eq_right (mem_deep.mp inside).2, reference_getElem?_last]

/-- What the table holds stays when more arrives, however it is divided then. -/
theorem flatten_reference_mono {others : List A} {n : Nat} (more : items <+: others)
    (fits : (deep depth items m).length ≤ k) (fitsOthers : (deep depth others n).length ≤ k)
    {member : A} (held : member ∈ (reference k depth items m).flatten) :
    member ∈ (reference k depth others n).flatten := by
  rw [mem_flatten_reference fits] at held
  rw [mem_flatten_reference fitsOthers]
  obtain ⟨arrived, rfl⟩ := more
  rw [level_append, List.take_append]
  exact List.mem_append_left _ held

/-- Buckets share no item. -/
theorem nodup_flatten_reference (distinct : items.Nodup) :
    (reference k depth items m).flatten.Nodup := by
  rw [List.nodup_flatten, reference]
  constructor
  · intro bucket member
    rcases mem_reference.mp member with ⟨i, _, rfl⟩ | rfl
    · exact (distinct.filter _).sublist (List.take_sublist _ _)
    · exact distinct.filter _
  · rw [List.pairwise_append]
    refine ⟨?_, List.pairwise_singleton _ _, ?_⟩
    · rw [List.pairwise_map]
      apply List.pairwise_lt_range.imp
      intro i j below member first second
      have depth_i := (mem_level.mp (List.mem_of_mem_take first)).2
      have depth_j := (mem_level.mp (List.mem_of_mem_take second)).2
      omega
    · intro bucket isLevel last isLast member first second
      obtain ⟨i, below, rfl⟩ := List.mem_map.mp isLevel
      rw [List.mem_singleton] at isLast
      subst isLast
      have depth_i := (mem_level.mp (List.mem_of_mem_take first)).2
      have within := (mem_deep.mp second).2
      rw [List.mem_range] at below
      omega

/-- Of each depth the table holds the first `k` items. -/
theorem level_flatten_reference_perm (fits : (deep depth items m).length ≤ k)
    (distinct : items.Nodup) (i : Nat) :
    (level depth (reference k depth items m).flatten i).Perm ((level depth items i).take k) := by
  have heldOnce : (level depth (reference k depth items m).flatten i).Nodup :=
    (nodup_flatten_reference distinct).filter _
  have arrivedOnce : ((level depth items i).take k).Nodup :=
    (distinct.filter _).sublist (List.take_sublist _ _)
  apply (List.perm_ext_iff_of_nodup heldOnce arrivedOnce).mpr
  intro member
  rw [mem_level, mem_flatten_reference fits]
  constructor
  · rintro ⟨held, rfl⟩
    exact held
  · intro first
    have own := (mem_level.mp (List.mem_of_mem_take first)).2
    rw [own]
    exact ⟨first, rfl⟩

/-- The table holds nothing but what has arrived. -/
theorem flatten_reference_subset : (reference k depth items m).flatten ⊆ items := by
  intro item member
  obtain ⟨bucket, isBucket, inside⟩ := List.mem_flatten.mp member
  rcases mem_reference.mp isBucket with ⟨i, _, rfl⟩ | rfl
  · exact (mem_level.mp (List.mem_of_mem_take inside)).1
  · exact (mem_deep.mp inside).1

/-- No key occurs twice in the table. -/
theorem nodup_keys_reference {key : A → K} (distinct : (items.map key).Nodup) :
    ((reference k depth items m).flatten.map key).Nodup := by
  have injective := List.inj_on_of_nodup_map distinct
  apply List.Nodup.map_on
  · intro first firstHeld second secondHeld same
    exact injective (flatten_reference_subset firstHeld) (flatten_reference_subset secondHeld) same
  · exact nodup_flatten_reference distinct.of_map

section Keys

variable {key : A → K} {keyDepth : K → Nat} {others : List A}

theorem map_level : (level (keyDepth ∘ key) items i).map key = level keyDepth (items.map key) i := by
  rw [level, level, List.filter_map]
  rfl

theorem map_deep : (deep (keyDepth ∘ key) items m).map key = deep keyDepth (items.map key) m := by
  rw [deep, deep, List.filter_map]
  rfl

/-- Where the key determines the depth, the number of items from a depth on
depends on the set of keys alone. -/
theorem length_deep_of_perm (same : (items.map key).Perm (others.map key)) :
    (deep (keyDepth ∘ key) items m).length = (deep (keyDepth ∘ key) others m).length := by
  have lengths := (same.filter fun name => decide (m ≤ keyDepth name)).length_eq
  rw [← deep, ← deep, ← map_deep, ← map_deep, List.length_map, List.length_map] at lengths
  exact lengths

theorem length_level_of_perm (same : (items.map key).Perm (others.map key)) :
    (level (keyDepth ∘ key) items i).length = (level (keyDepth ∘ key) others i).length := by
  have lengths := (same.filter fun name => decide (keyDepth name = i)).length_eq
  rw [← level, ← level, ← map_level, ← map_level, List.length_map, List.length_map] at lengths
  exact lengths

/-- So do the sizes of the buckets. -/
theorem map_length_reference_of_perm (same : (items.map key).Perm (others.map key)) :
    (reference k (keyDepth ∘ key) items m).map List.length =
      (reference k (keyDepth ∘ key) others m).map List.length := by
  simp [reference, length_deep_of_perm same, length_level_of_perm same]

end Keys

/-! ## How the closed form changes -/

/-- An item that arrives at its own bucket while there is room goes to its end. -/
theorem reference_concat_level (below : depth item < m)
    (room : (level depth items (depth item)).length < k) :
    (reference k depth items m).set (depth item) (level depth items (depth item) ++ [item]) =
      reference k depth (items ++ [item]) m := by
  apply eq_reference_iff.mpr
  refine ⟨by simp, ?_, ?_⟩
  · intro i isLevel
    by_cases own : depth item = i
    · subst own
      rw [List.getElem?_set_self (by simp; omega), level_concat_self, List.take_of_length_le]
      simpa using Nat.succ_le_of_lt room
    · rw [List.getElem?_set_ne own, reference_getElem?_level isLevel, level_concat_of_ne own]
  · rw [List.getElem?_set_ne (Nat.ne_of_lt below), reference_getElem?_last,
      deep_concat_of_lt below]

/-- An item that arrives at its own full bucket changes nothing. -/
theorem reference_concat_full (below : depth item < m)
    (full : k ≤ (level depth items (depth item)).length) :
    reference k depth items m = reference k depth (items ++ [item]) m := by
  apply eq_reference_iff.mpr
  refine ⟨by simp, ?_, ?_⟩
  · intro i isLevel
    rw [reference_getElem?_level isLevel]
    by_cases own : depth item = i
    · subst own
      rw [level_concat_self, List.take_append_of_le_length full]
    · rw [level_concat_of_ne own]
  · rw [reference_getElem?_last, deep_concat_of_lt below]

/-- An item that arrives at the last bucket goes to its end. -/
theorem reference_concat_last (within : m ≤ depth item) :
    (reference k depth items m).set m (deep depth items m ++ [item]) =
      reference k depth (items ++ [item]) m := by
  apply eq_reference_iff.mpr
  refine ⟨by simp, ?_, ?_⟩
  · intro i isLevel
    have other : depth item ≠ i := Nat.ne_of_gt (isLevel.trans_le within)
    rw [List.getElem?_set_ne (Nat.ne_of_gt isLevel), reference_getElem?_level isLevel,
      level_concat_of_ne other]
  · rw [List.getElem?_set_self (by simp), deep_concat_of_le within]

/-- Dividing the last bucket leaves one level behind and appends the rest. -/
theorem reference_succ (fits : (deep depth items m).length ≤ k) :
    (reference k depth items m).set m (level depth items m) ++ [deep depth items (m + 1)] =
      reference k depth items (m + 1) := by
  apply eq_reference_iff.mpr
  refine ⟨by simp, ?_, ?_⟩
  · intro i isLevel
    rw [List.getElem?_append_left (by simpa using isLevel)]
    rcases Nat.lt_succ_iff_lt_or_eq.mp isLevel with below | rfl
    · rw [List.getElem?_set_ne (Nat.ne_of_gt below), reference_getElem?_level below]
    · rw [List.getElem?_set_self (by simp), List.take_of_length_le]
      exact (length_level_le_deep le_rfl).trans fits
  · rw [List.getElem?_append_right (by simp)]
    simp

end Reference

end MainlineDht.Buckets
