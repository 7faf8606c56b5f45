import MainlineDht.Go.RoutingTableInsertion
import MainlineDht.Go.RoutingTableLookup

/-!
# This node's own id in the Go routing table

Nothing keeps this node's id out of its table: an entry offered under that id
goes to the last bucket, which never drops what belongs there.  So lookups that
leave out this node do so exactly while its id has not been offered.
-/

namespace MainlineDht.Go.RoutingTable

open Buckets NodeId

variable {t : RoutingTable} {targetId : NodeId}

/-- An outcome of a lookup holds stored entries and claims an exact match only
if the target is stored. -/
structure FromStored (t : RoutingTable) (targetId : NodeId) (outcome : List NodeInfo × Bool) :
    Prop where
  stored : outcome.1 ⊆ t.storedEntries
  exact : outcome.2 = true → targetId ∈ t.storedEntries.map NodeInfo.nodeId
  fits : outcome.2 = false → outcome.1.length ≤ t.bucketSize

theorem entries_subset_stored {bucket : Bucket} (isBucket : bucket ∈ t.table) :
    bucket.entries ⊆ t.storedEntries := by
  intro entry member
  exact List.mem_flatMap.mpr ⟨bucket, isBucket, member⟩

/-- A bucket that holds the target makes the collection end with its entry. -/
theorem collect_of_matched {i : Nat} {entry : NodeInfo} (inside : i < t.table.length)
    (matched : t.table[i].entries.find? (fun entry => isEqual entry.nodeId targetId) = some entry)
    (result : List NodeInfo) : t.collect targetId i result = some ([entry], true) := by
  have single : t.table[i].getEntryByIdOrReturnAll targetId = ([entry], true) := by
    rw [Bucket.getEntryByIdOrReturnAll, matched]
  simp only [collect, bucketAt_of_lt inside, Option.bind_eq_bind, Option.bind_some, single]
  rfl

/-- Collecting from a bucket of the table does not panic. -/
theorem exists_collect {i : Int} (low : 0 ≤ i) (high : i < t.table.length)
    {result : List NodeInfo} (from_stored : t.FromStored targetId (result, false)) :
    ∃ outcome, t.collect targetId i result = some outcome ∧ t.FromStored targetId outcome := by
  obtain ⟨j, rfl⟩ := Int.eq_ofNat_of_zero_le low
  have inside : j < t.table.length := Int.ofNat_lt.mp high
  have isBucket : t.table[j] ∈ t.table := List.getElem_mem inside
  have fits : result.length ≤ t.bucketSize := from_stored.fits rfl
  cases matched : t.table[j].entries.find? (fun entry => isEqual entry.nodeId targetId) with
  | some entry =>
      refine ⟨([entry], true), collect_of_matched inside matched result, ?_, ?_, by rintro ⟨⟩⟩
      · intro other member
        rw [List.mem_singleton.mp member]
        exact entries_subset_stored isBucket (List.mem_of_find?_eq_some matched)
      · intro _
        have same := List.find?_some matched
        rw [isEqual_iff] at same
        exact List.mem_map.mpr
          ⟨entry, entries_subset_stored isBucket (List.mem_of_find?_eq_some matched), same⟩
  | none =>
      have all : t.table[j].getEntryByIdOrReturnAll targetId = (t.table[j].entries, false) := by
        rw [Bucket.getEntryByIdOrReturnAll, matched]
      refine ⟨_, collect_of_all inside all fits, ?_, by rintro ⟨⟩, ?_⟩
      · intro entry member
        rcases List.mem_append.mp member with earlier | new
        · exact from_stored.stored earlier
        · exact entries_subset_stored isBucket (List.mem_of_mem_take new)
      · intro _
        simp only [List.length_append, List.length_take]
        omega

theorem exists_visit {guard : Bool} {i : Int}
    (safe : guard = true → 0 ≤ i ∧ i < t.table.length) {result : List NodeInfo}
    (from_stored : t.FromStored targetId (result, false)) :
    ∃ outcome, t.visit targetId guard i result = some outcome ∧ t.FromStored targetId outcome := by
  cases guard with
  | true => exact exists_collect (safe rfl).1 (safe rfl).2 from_stored
  | false => exact ⟨(result, false), rfl, from_stored⟩

/-- The walk returns stored entries, whatever the target. -/
theorem exists_findLoop {start offset : Nat} (inside : start < t.table.length)
    {result : List NodeInfo} (from_stored : t.FromStored targetId (result, false)) :
    ∃ outcome, t.findLoop targetId start offset result = some outcome ∧
      t.FromStored targetId outcome := by
  have lastIndex : t.currentMaxPrefixLength = t.table.length - 1 := rfl
  induction remaining : start + t.table.length - offset generalizing offset result with
  | zero =>
      refine ⟨(result, false), ?_, from_stored⟩
      rw [findLoop, if_neg (by omega)]
      rfl
  | succ remaining ih =>
      by_cases continues : (start : Int) - offset > 0 ∨
          (start : Int) + offset ≤ t.currentMaxPrefixLength
      · rw [findLoop, if_pos continues]
        obtain ⟨⟨lower, lowerExact⟩, lowerRun, lowerStored⟩ :=
          @exists_visit t targetId (decide ((start : Int) - offset ≥ 0)) (start - offset)
            (fun guarded => by have := of_decide_eq_true guarded; omega) result from_stored
        simp only [lowerRun, Option.bind_eq_bind, Option.bind_some]
        cases lowerExact with
        | true => exact ⟨_, rfl, lowerStored⟩
        | false =>
            obtain ⟨⟨upper, upperExact⟩, upperRun, upperStored⟩ :=
              @exists_visit t targetId
                (decide (offset > 0 ∧ (start : Int) + offset ≤ t.currentMaxPrefixLength))
                (start + offset)
                (fun guarded => by have := of_decide_eq_true guarded; omega) lower lowerStored
            simp only [upperRun, Option.bind_some, Bool.false_eq_true, if_false]
            cases upperExact with
            | true => exact ⟨_, rfl, upperStored⟩
            | false =>
                simp only [Bool.false_eq_true, if_false]
                by_cases full : upper.length ≥ t.bucketSize
                · rw [if_pos full]
                  exact ⟨_, rfl, upperStored⟩
                · rw [if_neg full]
                  exact ih upperStored (by omega)
      · rw [findLoop, if_neg continues]
        exact ⟨_, rfl, from_stored⟩

/-- A lookup does not panic and returns stored entries. -/
theorem exists_findNodeWithoutSelf (nonempty : 0 < t.table.length) (targetId : NodeId) :
    ∃ outcome, t.findNodeWithoutSelf targetId = some outcome ∧ t.FromStored targetId outcome := by
  have upTo := t.startBucketIndex_le targetId
  rw [findNodeWithoutSelf_eq_findLoop nonempty]
  exact exists_findLoop (by omega) ⟨List.nil_subset _, by rintro ⟨⟩, fun _ => Nat.zero_le _⟩

/-- A target in the bucket where the lookup starts is matched at once. -/
theorem findNodeWithoutSelf_of_start {bucket : Bucket}
    (found : t.table[t.startBucketIndex targetId]? = some bucket)
    (member : targetId ∈ bucket.entries.map NodeInfo.nodeId) :
    ∃ entry, entry.nodeId = targetId ∧
      t.findNodeWithoutSelf targetId = some ([entry], true) := by
  obtain ⟨inside, rfl⟩ := List.getElem?_eq_some_iff.mp found
  have continues : (t.startBucketIndex targetId : Int) - (0 : Nat) > 0 ∨
      (t.startBucketIndex targetId : Int) + (0 : Nat) ≤ t.currentMaxPrefixLength := by
    rw [currentMaxPrefixLength]
    omega
  have held : (t.table[t.startBucketIndex targetId].entries.find?
      fun entry => isEqual entry.nodeId targetId).isSome := by
    obtain ⟨entry, isEntry, same⟩ := List.mem_map.mp member
    exact List.find?_isSome.mpr ⟨entry, isEntry, (isEqual_iff _ _).mpr same⟩
  obtain ⟨entry, matched⟩ := Option.isSome_iff_exists.mp held
  have same := List.find?_some matched
  refine ⟨entry, (isEqual_iff _ _).mp same, ?_⟩
  have collected := collect_of_matched inside matched []
  rw [findNodeWithoutSelf_eq_findLoop (Nat.zero_lt_of_lt inside), findLoop, if_pos continues]
  simp [visit, collected]

/-! ## Whether this node's id is stored -/

section Runs

variable {k : Nat} {self : NodeInfo} {offered : List NodeInfo}

/-- An entry offered under this node's id is in the last bucket, where lookups
of that id start. -/
theorem self_in_last_bucket (positive : 1 ≤ k)
    (run : (newRoutingTable k self).addEntries offered = some t)
    (isOffered : self.nodeId ∈ offered.map NodeInfo.nodeId) :
    ∃ bucket, t.table[t.startBucketIndex self.nodeId]? = some bucket ∧
      self.nodeId ∈ bucket.entries.map NodeInfo.nodeId := by
  obtain ⟨m, run', least⟩ := addEntries_eq_tableOf positive self offered
  rw [run', Option.some_inj] at run
  have deepest : sharedBits self self = 160 := by
    rw [sharedBits, Function.comp_apply, commonPrefixLength_eq, prefixLength_eq_iff]
  have upTo : m ≤ 160 := least.2 ((length_deep_le_one self offered).trans positive)
  have start : t.startBucketIndex self.nodeId = m := by
    rw [startBucketIndex, ← run, tableOf_table, List.length_map, length_reference]
    change min (sharedBits self self) m = m
    omega
  have last : t.table[m]? = some ⟨k, deep (sharedBits self) (distinctOffers offered) m⟩ := by
    rw [← run, tableOf_table, List.getElem?_map, reference_getElem?_last]
    rfl
  rw [start]
  refine ⟨_, last, ?_⟩
  obtain ⟨entry, arrived, same⟩ :=
    List.mem_map.mp ((mem_keys_firsts NodeInfo.nodeId offered self.nodeId).mpr isOffered)
  refine List.mem_map.mpr ⟨entry, mem_deep.mpr ⟨arrived, ?_⟩, same⟩
  have depth_eq : sharedBits self entry = sharedBits self self := by
    rw [sharedBits, Function.comp_apply, Function.comp_apply, same]
  omega

/-- What is stored has been offered. -/
theorem stored_subset_offered (positive : 1 ≤ k)
    (run : (newRoutingTable k self).addEntries offered = some t) {id : NodeId}
    (stored : id ∈ t.storedEntries.map NodeInfo.nodeId) : id ∈ offered.map NodeInfo.nodeId := by
  obtain ⟨m, run', least⟩ := addEntries_eq_tableOf positive self offered
  rw [run', Option.some_inj] at run
  rw [← run, storedEntries_tableOf] at stored
  obtain ⟨entry, member, same⟩ := List.mem_map.mp stored
  apply (mem_keys_firsts NodeInfo.nodeId offered id).mp
  exact List.mem_map.mpr ⟨entry, flatten_reference_subset member, same⟩

/-- No lookup returns the id, and a lookup of the id reports no exact match. -/
def NeverReturns (t : RoutingTable) (id : NodeId) : Prop :=
  (∀ targetId, ∃ result exactMatch, t.findNodeWithoutSelf targetId = some (result, exactMatch) ∧
    id ∉ result.map NodeInfo.nodeId) ∧
  ∃ result, t.findNodeWithoutSelf id = some (result, false)

/-- In every reachable table, lookups leave out this node exactly if its id has
never been offered. -/
theorem neverReturns_self_iff (k : Nat) (positive : 1 ≤ k) (self : NodeInfo)
    (offered : List NodeInfo) (t : RoutingTable)
    (run : (newRoutingTable k self).addEntries offered = some t) :
    t.NeverReturns self.nodeId ↔ self.nodeId ∉ offered.map NodeInfo.nodeId := by
  constructor
  · rintro ⟨_, result, noMatch⟩ isOffered
    obtain ⟨bucket, found, member⟩ := self_in_last_bucket positive run isOffered
    obtain ⟨entry, _, exactly⟩ := findNodeWithoutSelf_of_start found member
    rw [exactly] at noMatch
    cases noMatch
  · intro absent
    have notStored : self.nodeId ∉ t.storedEntries.map NodeInfo.nodeId :=
      mt (stored_subset_offered positive run) absent
    have nonempty : 0 < t.table.length := by
      obtain ⟨m, run', _⟩ := addEntries_eq_tableOf positive self offered
      rw [run', Option.some_inj] at run
      simp [← run]
    constructor
    · intro targetId
      obtain ⟨⟨result, exactMatch⟩, found, from_stored⟩ :=
        exists_findNodeWithoutSelf nonempty targetId
      refine ⟨result, exactMatch, found, ?_⟩
      intro member
      obtain ⟨entry, returned, same⟩ := List.mem_map.mp member
      exact notStored (List.mem_map.mpr ⟨entry, from_stored.stored returned, same⟩)
    · obtain ⟨⟨result, exactMatch⟩, found, from_stored⟩ :=
        exists_findNodeWithoutSelf nonempty self.nodeId
      cases exactMatch with
      | true => exact absurd (from_stored.exact rfl) notStored
      | false => exact ⟨result, found⟩

/-- Two other contacts. -/
theorem neverReturns_self_iff_contacts :
    ∃ t, (newRoutingTable 2 (contact 18)).addEntries [contact 255, contact 15] = some t ∧
      t.NeverReturns (contact 18).nodeId := by
  obtain ⟨t, run, _⟩ := exists_addEntries (show 1 ≤ 2 by decide) (contact 18)
    [contact 255, contact 15]
  refine ⟨t, run, ?_⟩
  exact (neverReturns_self_iff 2 (by decide) (contact 18) _ t run).mpr (by decide +kernel)

/-- A peer that answers with this node's own id gets into the results. -/
theorem not_neverReturns_self :
    ∃ t entry, (newRoutingTable 2 (contact 18)).addEntries [contact 255, contact 18] = some t ∧
      t.findNodeWithoutSelf (contact 18).nodeId = some ([entry], true) ∧
      entry.nodeId = (contact 18).nodeId ∧ ¬ t.NeverReturns (contact 18).nodeId := by
  obtain ⟨t, run, _⟩ := exists_addEntries (show 1 ≤ 2 by decide) (contact 18)
    [contact 255, contact 18]
  obtain ⟨bucket, found, member⟩ :=
    @self_in_last_bucket t 2 (contact 18) _ (by decide) run (by decide +kernel)
  obtain ⟨entry, same, exactly⟩ := findNodeWithoutSelf_of_start found member
  refine ⟨t, entry, run, exactly, same, ?_⟩
  rintro ⟨_, result, noMatch⟩
  rw [exactly] at noMatch
  cases noMatch

end Runs

end MainlineDht.Go.RoutingTable
