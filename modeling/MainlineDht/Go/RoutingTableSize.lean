import MainlineDht.Go.RoutingTableInsertion
import MainlineDht.NodeId.Prefixes
import Mathlib.Data.Nat.Log

/-!
# How far a Go routing table is divided

`newRoutingTable` remarks that not all buckets are needed: buckets for longer
prefixes are not divided any more once all ids with these prefixes fit into one.
The exact number of buckets depends on the bucket size alone.
-/

namespace MainlineDht.Go.RoutingTable

open Buckets NodeId

variable {k m : Nat} {self : NodeInfo} {offered : List NodeInfo}

theorem sharedBits_eq (self entry : NodeInfo) :
    sharedBits self entry = prefixLength self.nodeId entry.nodeId := by
  rw [sharedBits, Function.comp_apply, commonPrefixLength_eq]

/-- There are only so many ids from one depth on. -/
theorem length_deep_le (self : NodeInfo) (offered : List NodeInfo) (small : m ≤ 160) :
    (deep (sharedBits self) (distinctOffers offered) m).length ≤ 2 ^ (160 - m) := by
  have distinct : ((deep (sharedBits self) (distinctOffers offered) m).map NodeInfo.nodeId).Nodup :=
    (nodup_keys_firsts NodeInfo.nodeId offered).sublist (List.filter_sublist.map _)
  rw [← @List.length_map _ _ _ NodeInfo.nodeId]
  apply @length_le_of_prefixLength self.nodeId _ _ small distinct
  intro id member
  rcases List.mem_map.mp member with ⟨entry, held, rfl⟩
  rw [← sharedBits_eq]
  exact (mem_deep.mp held).2

/-- All ids of one prefix may be offered. -/
theorem exists_offers (self : NodeInfo) (small : m ≤ 160) :
    ∃ offered, ∀ i ≤ m, (deep (sharedBits self) (distinctOffers offered) i).length =
      2 ^ (160 - m) := by
  rcases exists_ids_of_prefixLength self.nodeId small with ⟨ids, distinct, count, share⟩
  have sameIds : (ids.map fun id => NodeInfo.mk id self.address).map NodeInfo.nodeId = ids := by
    rw [List.map_map]
    exact List.map_id ids
  refine ⟨ids.map fun id => ⟨id, self.address⟩, ?_⟩
  intro i upTo
  have all : deep (sharedBits self) (ids.map fun id => NodeInfo.mk id self.address) i =
      ids.map fun id => NodeInfo.mk id self.address := by
    rw [deep, List.filter_eq_self]
    intro entry member
    rcases List.mem_map.mp member with ⟨id, isId, rfl⟩
    rw [sharedBits_eq]
    exact decide_eq_true (Nat.le_trans upTo (share id isId))
  rw [distinctOffers, firsts_of_nodup NodeInfo.nodeId (sameIds.symm ▸ distinct), all,
    List.length_map, count]

/-- The depth from which on all ids of a prefix fit into one bucket. -/
def enough (k : Nat) : Nat :=
  160 - min 160 (Nat.log 2 k)

theorem length_deep_enough (positive : 1 ≤ k) (self : NodeInfo) (offered : List NodeInfo) :
    (deep (sharedBits self) (distinctOffers offered) (enough k)).length ≤ k := by
  have upTo : enough k ≤ 160 := Nat.sub_le _ _
  calc _ ≤ 2 ^ (160 - enough k) := length_deep_le self offered upTo
    _ ≤ 2 ^ Nat.log 2 k := Nat.pow_le_pow_right (by decide) (by rw [enough]; omega)
    _ ≤ k := Nat.pow_log_le_self 2 (Nat.pos_iff_ne_zero.mp positive)

/-- Before that, more ids can be offered than fit. -/
theorem exists_overfull (k : Nat) (self : NodeInfo) :
    ∃ offered, ∀ i < enough k, k < (deep (sharedBits self) (distinctOffers offered) i).length := by
  cases depth : enough k with
  | zero =>
      refine ⟨[], ?_⟩
      rintro i ⟨⟩
  | succ d =>
      have shallow : Nat.log 2 k + 1 = 160 - d := by
        rw [enough] at depth
        omega
      rcases @exists_offers d self (by rw [enough] at depth; omega) with ⟨offered, counts⟩
      refine ⟨offered, ?_⟩
      intro i below
      rw [counts i (Nat.le_of_lt_succ below), ← shallow]
      exact Nat.lt_pow_succ_log_self (by decide) k

/-- The numbers of buckets that tables of one bucket size come to have. -/
def Sizes (k : Nat) (self : NodeInfo) : Set Nat :=
  { n | ∃ offered t, (newRoutingTable k self).addEntries offered = some t ∧ t.table.length = n }

/-- The greatest number of buckets: one for each prefix length that more ids have
than fit into a bucket, and one for the rest. -/
theorem isGreatest_sizes (k : Nat) (positive : 1 ≤ k) (self : NodeInfo) :
    IsGreatest (Sizes k self) (161 - min 160 (Nat.log 2 k)) := by
  have last : 161 - min 160 (Nat.log 2 k) = enough k + 1 := by
    rw [enough]
    omega
  rw [last]
  constructor
  · rcases exists_overfull k self with ⟨offered, overfull⟩
    rcases addEntries_eq_tableOf positive self offered with ⟨m, closed, least⟩
    refine ⟨offered, _, closed, ?_⟩
    have notBefore : enough k ≤ m := by
      by_contra before
      exact absurd (overfull m (Nat.lt_of_not_le before)) (Nat.not_lt.mpr least.1)
    have notAfter : m ≤ enough k := least.2 (length_deep_enough positive self offered)
    rw [tableOf_table, List.length_map, length_reference, Nat.le_antisymm notAfter notBefore]
  · rintro n ⟨offered, t, run, rfl⟩
    rcases addEntries_eq_tableOf positive self offered with ⟨m, closed, least⟩
    cases run.symm.trans closed
    rw [tableOf_table, List.length_map, length_reference]
    exact Nat.succ_le_succ (least.2 (length_deep_enough positive self offered))

/-- With eight entries to a bucket, bucket 157 is the last. -/
theorem isGreatest_sizes_eight : IsGreatest (Sizes 8 (contact 0)) 158 := by
  have greatest := isGreatest_sizes 8 (by decide) (contact 0)
  rwa [Nat.log_eq_of_pow_le_of_lt_pow (by decide : 2 ^ 3 ≤ 8) (by decide)] at greatest

end MainlineDht.Go.RoutingTable
