import MainlineDht.Go.RoutingTableSelf

/-!
# Exact matches and progress of lookups in the Go routing table

A stored entry is in the bucket where lookups of its own id start.  So a lookup
does not miss the target, and an entry that is nearer to the target than this
node is in the bucket where the lookup of the target starts, all of which is
returned.
-/

namespace MainlineDht.Go.RoutingTable

open Buckets NodeId

variable {t : RoutingTable} {targetId : NodeId} {k : Nat} {self : NodeInfo}
  {offered : List NodeInfo}

/-- The first stop of a walk is its start. -/
theorem stops_zero (start last : Nat) : stops start last 0 = [start] := by
  simp [stops]

/-- A lookup of a target that is not stored returns all of a bucket it starts at,
as long as the bucket keeps to its size. -/
theorem entriesAt_start_subset (fits : (t.entriesAt (t.startBucketIndex targetId)).length ≤
    t.bucketSize) :
    t.entriesAt (t.startBucketIndex targetId) ⊆ (t.alongWalk targetId).take t.bucketSize := by
  have continues : 0 < t.startBucketIndex targetId ∨
      t.startBucketIndex targetId + 0 ≤ t.table.length - 1 :=
    Or.inr (t.startBucketIndex_le targetId)
  rw [alongWalk, walk_of_continues continues, stops_zero, List.singleton_append,
    List.flatMap_cons, List.take_append, List.take_of_length_le fits]
  exact List.subset_append_left _ _

/-! ## The bucket of a stored entry -/

theorem entriesAt_length_le (positive : 1 ≤ k)
    (run : (newRoutingTable k self).addEntries offered = some t) (i : Nat) :
    (t.entriesAt i).length ≤ t.bucketSize := by
  rcases addEntries_eq_tableOf positive self offered with ⟨m, run', least⟩
  rw [run', Option.some_inj] at run
  rw [← run, entriesAt, tableOf_table, List.getElem?_map]
  cases found : (reference k (sharedBits self) (distinctOffers offered) m)[i]? with
  | none => exact Nat.zero_le _
  | some bucket => exact length_le_of_mem_reference least.1 (List.mem_of_getElem? found)

/-- A stored entry is where lookups of its id start. -/
theorem mem_entriesAt_start (positive : 1 ≤ k)
    (run : (newRoutingTable k self).addEntries offered = some t) {entry : NodeInfo}
    (stored : entry ∈ t.storedEntries) :
    entry ∈ t.entriesAt (t.startBucketIndex entry.nodeId) := by
  rcases addEntries_eq_tableOf positive self offered with ⟨m, run', least⟩
  rw [run', Option.some_inj] at run
  rw [← run, storedEntries_tableOf] at stored
  rcases exists_bucket_of_mem_flatten stored with ⟨bucket, found, inside⟩
  have start : (tableOf k self (distinctOffers offered) m).startBucketIndex entry.nodeId =
      min (sharedBits self entry) m := by
    rw [startBucketIndex, tableOf_table, List.length_map, length_reference]
    rfl
  rw [← run, start, entriesAt, tableOf_table, List.getElem?_map, found]
  exact inside

/-! ## What `findNode` answers -/

/-- The answer is the entry with the target id, where one is stored, and else
has every entry that is nearer to the target than this node. -/
structure Answers (t : RoutingTable) (targetId : NodeId) (result : List NodeInfo)
    (exactMatch : Bool) : Prop where
  exact_iff : exactMatch = true ↔ ∃ entry ∈ t.storedEntries, entry.nodeId = targetId
  exact : exactMatch = true →
    ∃ entry ∈ t.storedEntries, entry.nodeId = targetId ∧ result = [entry]
  progress : exactMatch = false → ∀ entry ∈ t.storedEntries,
    prefixLength targetId t.thisNodeInfo.nodeId < prefixLength targetId entry.nodeId →
      entry ∈ result

/-- A stored target is matched. -/
theorem answers_of_stored (positive : 1 ≤ k)
    (run : (newRoutingTable k self).addEntries offered = some t) {entry : NodeInfo}
    (stored : entry ∈ t.storedEntries) :
    ∃ result exactMatch, t.findNodeWithoutSelf entry.nodeId = some (result, exactMatch) ∧
      t.Answers entry.nodeId result exactMatch := by
  have held := mem_entriesAt_start positive run stored
  cases start : t.table[t.startBucketIndex entry.nodeId]? with
  | none =>
      rw [entriesAt, start] at held
      cases held
  | some bucket =>
      rw [entriesAt, start] at held
      have nonempty : 0 < t.table.length := by
        rcases List.getElem?_eq_some_iff.mp start with ⟨inside, _⟩
        exact Nat.zero_lt_of_lt inside
      rcases findNodeWithoutSelf_of_start start (List.mem_map_of_mem held) with
        ⟨found, same, returned⟩
      rcases exists_findNodeWithoutSelf nonempty entry.nodeId with ⟨outcome, returned', held'⟩
      rw [returned, Option.some_inj] at returned'
      subst returned'
      have foundStored : found ∈ t.storedEntries := held'.stored List.mem_cons_self
      refine ⟨[found], true, returned, ?_⟩
      constructor
      · exact iff_of_true rfl ⟨entry, stored, rfl⟩
      · intro _
        exact ⟨found, foundStored, same, rfl⟩
      · rintro ⟨⟩

/-- A target that is not stored is answered with what is nearer to it. -/
theorem answers_of_absent (positive : 1 ≤ k)
    (run : (newRoutingTable k self).addEntries offered = some t)
    (absent : t.NotStored targetId) :
    ∃ result exactMatch, t.findNodeWithoutSelf targetId = some (result, exactMatch) ∧
      t.Answers targetId result exactMatch := by
  have nonempty : 0 < t.table.length := by
    rcases addEntries_eq_tableOf positive self offered with ⟨m, run', _⟩
    rw [run', Option.some_inj] at run
    simp [← run]
  refine ⟨_, false, findNodeWithoutSelf_eq nonempty absent, ?_⟩
  constructor
  · apply iff_of_false Bool.false_ne_true
    rintro ⟨entry, stored, same⟩
    exact absent (List.mem_map.mpr ⟨entry, stored, same⟩)
  · rintro ⟨⟩
  · intro _ entry stored nearer
    have start : t.startBucketIndex targetId = t.startBucketIndex entry.nodeId := by
      rw [startBucketIndex, startBucketIndex, commonPrefixLength_eq, commonPrefixLength_eq,
        prefixLength_eq_of_lt nearer, prefixLength_comm targetId]
    apply entriesAt_start_subset (entriesAt_length_le positive run _)
    rw [start]
    exact mem_entriesAt_start positive run stored

/-- In every reachable table, a lookup of any id but this node's own finds the
stored entry with that id, and without one returns all entries nearer to it. -/
theorem findNode_answers (k : Nat) (positive : 1 ≤ k) (self : NodeInfo)
    (offered : List NodeInfo) (t : RoutingTable)
    (run : (newRoutingTable k self).addEntries offered = some t) (targetId : NodeId)
    (different : targetId ≠ self.nodeId) :
    ∃ result exactMatch, t.findNode targetId = some (result, exactMatch) ∧
      t.Answers targetId result exactMatch := by
  have this_eq : t.thisNodeInfo = self := by
    rcases addEntries_eq_tableOf positive self offered with ⟨m, run', _⟩
    rw [run', Option.some_inj] at run
    rw [← run]
    rfl
  have notSelf : ¬ isEqual t.thisNodeInfo.nodeId targetId = true := by
    rw [isEqual_iff, this_eq]
    exact different.symm
  rw [findNode, if_neg notSelf]
  by_cases absent : t.NotStored targetId
  · exact answers_of_absent positive run absent
  · rcases List.mem_map.mp (not_not.mp absent) with ⟨entry, stored, rfl⟩
    exact answers_of_stored positive run stored

/-- One of two stored contacts is found, and one is nearer to a target than this
node. -/
theorem findNode_answers_contacts :
    ∃ t, (newRoutingTable 2 (contact 0)).addEntries [contact 255, contact 64] = some t ∧
      t.findNode (contact 64).nodeId = some ([contact 64], true) ∧
      ∃ result, t.findNode (contact 96).nodeId = some (result, false) ∧ contact 64 ∈ result := by
  have run : (newRoutingTable 2 (contact 0)).addEntries [contact 255, contact 64] =
      some ⟨contact 0, 2, [⟨2, [contact 255, contact 64]⟩]⟩ := by
    decide +kernel
  refine ⟨_, run, ?_, ?_⟩
  · rcases findNode_answers 2 (by decide) _ _ _ run (contact 64).nodeId (by decide) with
      ⟨result, exactMatch, finds, answers⟩
    have matched : exactMatch = true := answers.exact_iff.mpr (by decide +kernel)
    rcases answers.exact matched with ⟨entry, stored, same, rfl⟩
    subst matched
    rw [finds]
    have isContact : entry = contact 255 ∨ entry = contact 64 := by
      simpa [storedEntries] using stored
    rcases isContact with rfl | rfl
    · exact absurd same (by decide)
    · rfl
  · rcases findNode_answers 2 (by decide) _ _ _ run (contact 96).nodeId (by decide) with
      ⟨result, exactMatch, finds, answers⟩
    have missed : exactMatch = false := by
      rw [← Bool.not_eq_true, answers.exact_iff]
      decide +kernel
    subst missed
    exact ⟨result, finds, answers.progress rfl (contact 64) (by decide +kernel) (by decide +kernel)⟩

end MainlineDht.Go.RoutingTable
