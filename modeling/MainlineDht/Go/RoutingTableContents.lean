import MainlineDht.Go.RoutingTableInsertion

/-!
# What a Go routing table holds

Of the offers that share equally many bits with the own id, the first ones.  So
nothing that is held is ever given up or replaced, and it can be told from the
table alone whether it will ever hold an entry.
-/

namespace MainlineDht.Go.RoutingTable

open Buckets

variable {k : Nat} {self entry : NodeInfo} {offered later : List NodeInfo} {t t' : RoutingTable}

/-- An entry is held exactly if it is among the first `k` distinct offers at its
number of shared bits. -/
theorem mem_storedEntries_iff (positive : 1 ≤ k)
    (run : (newRoutingTable k self).addEntries offered = some t) :
    entry ∈ t.storedEntries ↔
      entry ∈ (level (sharedBits self) (distinctOffers offered) (sharedBits self entry)).take k := by
  rcases addEntries_eq_tableOf positive self offered with ⟨m, closed, least⟩
  cases run.symm.trans closed
  rw [storedEntries_tableOf, mem_flatten_reference (isLeast_iff.mp least).1]

theorem storedEntries_subset (positive : 1 ≤ k)
    (run : (newRoutingTable k self).addEntries offered = some t) : t.storedEntries ⊆ offered := by
  intro entry stored
  rw [mem_storedEntries_iff positive run] at stored
  exact firsts_subset _ _ (mem_level.mp (List.mem_of_mem_take stored)).1

/-- What is held stays. -/
theorem storedEntries_mono (positive : 1 ≤ k)
    (run : (newRoutingTable k self).addEntries offered = some t)
    (run' : (newRoutingTable k self).addEntries (offered ++ later) = some t') :
    t.storedEntries ⊆ t'.storedEntries := by
  intro entry stored
  rw [mem_storedEntries_iff positive run] at stored
  rw [mem_storedEntries_iff positive run']
  rcases firsts_extend NodeInfo.nodeId offered later with ⟨more, extended⟩
  rw [distinctOffers, ← extended, level_append, List.take_append]
  exact List.mem_append_left _ stored

/-- No two entries have the same id. -/
theorem eq_of_nodeId_eq (positive : 1 ≤ k)
    (run : (newRoutingTable k self).addEntries offered = some t) {other : NodeInfo}
    (stored : entry ∈ t.storedEntries) (storedOther : other ∈ t.storedEntries)
    (same : other.nodeId = entry.nodeId) : other = entry := by
  rcases addEntries_eq_tableOf positive self offered with ⟨m, closed, _⟩
  cases run.symm.trans closed
  rw [storedEntries_tableOf] at stored storedOther
  exact List.inj_on_of_nodup_map (nodup_keys_reference (nodup_keys_firsts NodeInfo.nodeId offered))
    storedOther stored same

/-! ## What a table will hold -/

/-- The id of the entry is not stored, and fewer entries than a bucket holds share
as many bits with the own id. -/
def Admits (t : RoutingTable) (entry : NodeInfo) : Prop :=
  entry.nodeId ∉ t.storedEntries.map NodeInfo.nodeId ∧
    (level (sharedBits t.thisNodeInfo) t.storedEntries
      (sharedBits t.thisNodeInfo entry)).length < t.bucketSize

instance (t : RoutingTable) (entry : NodeInfo) : Decidable (t.Admits entry) :=
  inferInstanceAs (Decidable (_ ∧ _))

theorem addEntries_append {more : List NodeInfo}
    (run : (newRoutingTable k self).addEntries offered = some t)
    (further : t.addEntries more = some t') :
    (newRoutingTable k self).addEntries (offered ++ more) = some t' := by
  rw [addEntries, List.foldlM_append, ← addEntries, run]
  exact further

/-- In terms of the offers: no distinct one has the id, and there is room at its
number of shared bits. -/
theorem admits_iff (positive : 1 ≤ k)
    (run : (newRoutingTable k self).addEntries offered = some t) :
    t.Admits entry ↔ entry.nodeId ∉ t.storedEntries.map NodeInfo.nodeId ∧
      (level (sharedBits self) (distinctOffers offered) (sharedBits self entry)).length < k := by
  rcases addEntries_eq_tableOf positive self offered with ⟨m, closed, least⟩
  cases run.symm.trans closed
  have distinct := (nodup_keys_firsts NodeInfo.nodeId offered).of_map
  have held := (level_flatten_reference_perm (isLeast_iff.mp least).1 distinct
    (sharedBits self entry)).length_eq
  rw [← storedEntries_tableOf, List.length_take] at held
  have size : (tableOf k self (distinctOffers offered) m).bucketSize = k := rfl
  have own : (tableOf k self (distinctOffers offered) m).thisNodeInfo = self := rfl
  rw [Admits, size, own, held]
  exact and_congr_right fun _ => by omega

/-- An entry that the table admits is held once it is added. -/
theorem mem_storedEntries_of_admits (positive : 1 ≤ k)
    (run : (newRoutingTable k self).addEntries offered = some t) (admits : t.Admits entry)
    (added : t.addEntry entry = some t') : entry ∈ t'.storedEntries := by
  rcases (admits_iff positive run).mp admits with ⟨unknown, room⟩
  have run' := (addEntries_concat k self offered run).trans added
  have new : entry.nodeId ∉ (distinctOffers offered).map NodeInfo.nodeId := by
    rintro known
    rcases List.mem_map.mp known with ⟨other, isOffer, same⟩
    have level_eq : sharedBits self other = sharedBits self entry := by
      rw [sharedBits, Function.comp_apply, same]
      rfl
    apply unknown
    refine List.mem_map.mpr ⟨other, (mem_storedEntries_iff positive run).mpr ?_, same⟩
    rw [level_eq, List.take_of_length_le (Nat.le_of_lt room)]
    exact mem_level.mpr ⟨isOffer, level_eq⟩
  rw [mem_storedEntries_iff positive run', distinctOffers, firsts_concat, if_neg new,
    level_concat_self, List.take_of_length_le]
  · exact List.mem_append_right _ (List.mem_singleton_self entry)
  · rw [List.length_append]
    exact Nat.succ_le_of_lt room

end MainlineDht.Go.RoutingTable
