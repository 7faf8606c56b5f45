import MainlineDht.Buckets.Walk
import MainlineDht.Go.RoutingTableReference
import MainlineDht.Sequence.Blocks

/-!
# Lookups in the Go routing table

For a target that is not stored, `findNodeWithoutSelf` returns the first
`bucketSize` entries of the buckets it walks over.  The walk starts at the
bucket of the target and goes outward in both directions; its condition leaves
out bucket 0 when the lower side reaches it after the upper side has ended.
-/

namespace MainlineDht.Go.RoutingTable

open Buckets Sequence

variable {t : RoutingTable} {targetId : NodeId}

/-- The entries of a bucket, none where the table has no bucket. -/
def entriesAt (t : RoutingTable) (i : Nat) : List NodeInfo :=
  (t.table[i]?.map Bucket.entries).getD []

/-- The target's id is in no bucket. -/
def NotStored (t : RoutingTable) (targetId : NodeId) : Prop :=
  targetId ∉ t.storedEntries.map NodeInfo.nodeId

/-- A bucket without the target hands out all its entries. -/
theorem getEntryByIdOrReturnAll_of_not_stored {bucket : Bucket} (isBucket : bucket ∈ t.table)
    (absent : t.NotStored targetId) :
    bucket.getEntryByIdOrReturnAll targetId = (bucket.entries, false) := by
  have missing : bucket.entries.find? (fun entry => isEqual entry.nodeId targetId) = none := by
    rw [List.find?_eq_none]
    intro entry member same
    rw [isEqual_iff] at same
    apply absent
    exact List.mem_map.mpr ⟨entry, List.mem_flatMap.mpr ⟨bucket, isBucket, member⟩, same⟩
  rw [Bucket.getEntryByIdOrReturnAll, missing]

theorem bucketAt_of_lt {i : Nat} (inside : i < t.table.length) :
    t.bucketAt i = some t.table[i] := by
  rw [bucketAt, if_pos (Int.natCast_nonneg i), Int.toNat_natCast, List.getElem?_eq_getElem inside]

/-- From a bucket that hands out all its entries, as many are taken as still fit. -/
theorem collect_of_all {i : Nat} (inside : i < t.table.length)
    (all : t.table[i].getEntryByIdOrReturnAll targetId = (t.table[i].entries, false))
    {result : List NodeInfo} (fits : result.length ≤ t.bucketSize) :
    t.collect targetId i result =
      some (result ++ t.table[i].entries.take (t.bucketSize - result.length), false) := by
  have space :
      ¬ min ((t.bucketSize : Int) - result.length) (t.table[i].entries.length : Int) < 0 := by
    omega
  have amount : (min ((t.bucketSize : Int) - result.length)
      (t.table[i].entries.length : Int)).toNat =
      min (t.bucketSize - result.length) t.table[i].entries.length := by
    omega
  simp only [collect, bucketAt_of_lt inside, Option.bind_eq_bind, Option.bind_some, all,
    Bool.false_eq_true, if_false, if_neg space, amount]
  rw [← List.take_take, List.take_length]
  rfl

/-- Collecting from a bucket appends its entries as far as the size allows. -/
theorem collect_eq (absent : t.NotStored targetId) {i : Nat} (inside : i < t.table.length)
    {result : List NodeInfo} (fits : result.length ≤ t.bucketSize) :
    t.collect targetId i result =
      some ((result ++ t.entriesAt i).take t.bucketSize, false) := by
  have entries : t.entriesAt i = t.table[i].entries := by
    rw [entriesAt, List.getElem?_eq_getElem inside]
    rfl
  have all := getEntryByIdOrReturnAll_of_not_stored (List.getElem_mem inside) absent
  rw [collect_of_all inside all fits, entries, List.take_append, List.take_of_length_le fits]

/-- A visit that the loop leaves out when its index is out of range. -/
theorem visit_eq (absent : t.NotStored targetId) {guard : Bool} {visited : Prop}
    [Decidable visited] {index : Int} {i : Nat} (agree : guard = true ↔ visited)
    (position : visited → index = i ∧ i < t.table.length) {result : List NodeInfo}
    (fits : result.length ≤ t.bucketSize) :
    t.visit targetId guard index result =
      some ((result ++ (if visited then [i] else []).flatMap t.entriesAt).take t.bucketSize,
        false) := by
  by_cases visits : visited
  · obtain ⟨rfl, inside⟩ := position visits
    rw [visit, if_pos (agree.mpr visits), if_pos visits, collect_eq absent inside fits]
    simp
  · rw [visit, if_neg (mt agree.mp visits), if_neg visits, List.flatMap_nil, List.append_nil,
      List.take_of_length_le fits]

/-- The loop collects along the walk. -/
theorem findLoop_eq (absent : t.NotStored targetId) {start last : Nat} (inside : start ≤ last)
    (length : t.table.length = last + 1) (offset : Nat) :
    ∀ result : List NodeInfo, result.length ≤ t.bucketSize →
      t.findLoop targetId start offset result =
        some ((result ++ (walk start last offset).flatMap t.entriesAt).take t.bucketSize,
          false) := by
  have lastIndex : t.currentMaxPrefixLength = last := by
    rw [currentMaxPrefixLength, length]
    simp
  induction offset using walk.induct start last with
  | case1 offset continues ih =>
      intro result fits
      have goesOn : (start : Int) - offset > 0 ∨ (start : Int) + offset ≤ last := by
        omega
      have lower := @visit_eq t targetId absent (decide ((start : Int) - offset ≥ 0))
        (offset ≤ start) _ ((start : Int) - offset) (start - offset) (by rw [decide_eq_true_eq]; omega)
        (by omega) result fits
      have lowerFits := List.length_take_le t.bucketSize
        (result ++ (if offset ≤ start then [start - offset] else []).flatMap t.entriesAt)
      have upper := @visit_eq t targetId absent
        (decide (offset > 0 ∧ (start : Int) + offset ≤ last)) (0 < offset ∧ start + offset ≤ last) _
        ((start : Int) + offset) (start + offset) (by rw [decide_eq_true_eq]; omega) (by omega)
        _ lowerFits
      rw [take_take_append, List.append_assoc, ← List.flatMap_append, ← stops] at upper
      have round := List.length_take_le t.bucketSize
        (result ++ (stops start last offset).flatMap t.entriesAt)
      rw [walk_of_continues continues, List.flatMap_append, ← List.append_assoc,
        findLoop, lastIndex, if_pos goesOn]
      simp only [lower, upper, Option.bind_eq_bind, Option.bind_some, Bool.false_eq_true, if_false]
      by_cases full : ((result ++ (stops start last offset).flatMap t.entriesAt).take
          t.bucketSize).length ≥ t.bucketSize
      · rw [if_pos full, List.take_append_of_le_length (full.trans (List.length_take_le' _ _))]
        rfl
      · rw [if_neg full, ih _ round, take_take_append]
  | case2 offset done =>
      intro result fits
      have ends : ¬ ((start : Int) - offset > 0 ∨ (start : Int) + offset ≤ last) := by
        omega
      rw [findLoop, lastIndex, if_neg ends, walk_of_stops done, List.flatMap_nil,
        List.append_nil, List.take_of_length_le fits]
      rfl

/-- The bucket a lookup starts at. -/
def startBucketIndex (t : RoutingTable) (targetId : NodeId) : Nat :=
  min (commonPrefixLength t.thisNodeInfo.nodeId targetId) (t.table.length - 1)

/-- The entries along the walk from the target's bucket. -/
def alongWalk (t : RoutingTable) (targetId : NodeId) : List NodeInfo :=
  (walk (t.startBucketIndex targetId) (t.table.length - 1) 0).flatMap t.entriesAt

theorem startBucketIndex_le (t : RoutingTable) (targetId : NodeId) :
    t.startBucketIndex targetId ≤ t.table.length - 1 :=
  Nat.min_le_right _ _

/-- A lookup is the loop from the bucket it starts at. -/
theorem findNodeWithoutSelf_eq_findLoop (nonempty : 0 < t.table.length) (targetId : NodeId) :
    t.findNodeWithoutSelf targetId = t.findLoop targetId (t.startBucketIndex targetId) 0 [] := by
  have start : min (commonPrefixLength t.thisNodeInfo.nodeId targetId : Int)
      t.currentMaxPrefixLength = t.startBucketIndex targetId := by
    rw [currentMaxPrefixLength, startBucketIndex]
    omega
  rw [findNodeWithoutSelf, start]

/-- A lookup of a target that is not stored returns the first entries of the walk. -/
theorem findNodeWithoutSelf_eq (nonempty : 0 < t.table.length) (absent : t.NotStored targetId) :
    t.findNodeWithoutSelf targetId = some ((t.alongWalk targetId).take t.bucketSize, false) := by
  rw [findNodeWithoutSelf_eq_findLoop nonempty]
  exact findLoop_eq absent (t.startBucketIndex_le targetId) (by omega) 0 [] (Nat.zero_le _)

/-- Going through the buckets by index gives all that is stored. -/
theorem flatMap_entriesAt (t : RoutingTable) :
    (List.range t.table.length).flatMap t.entriesAt = t.storedEntries := by
  rw [storedEntries, List.flatMap_def, List.flatMap_def]
  congr 1
  apply List.ext_getElem
  · simp
  · intro i inside _
    simp only [List.length_map, List.length_range] at inside
    simp [entriesAt, inside]

/-- The entries outside bucket 0. -/
def entriesBeyondFirst (t : RoutingTable) : List NodeInfo :=
  (t.table.drop 1).flatMap Bucket.entries

theorem storedEntries_eq_append (nonempty : 0 < t.table.length) :
    t.storedEntries = t.entriesAt 0 ++ t.entriesBeyondFirst := by
  cases buckets : t.table with
  | nil => simp [buckets] at nonempty
  | cons first rest => simp [storedEntries, entriesAt, entriesBeyondFirst, buckets]

/-- A walk that reaches bucket 0 meets every entry. -/
theorem alongWalk_perm_stored (nonempty : 0 < t.table.length)
    (reaches : ReachesZero (t.startBucketIndex targetId) (t.table.length - 1)) :
    (t.alongWalk targetId).Perm t.storedEntries := by
  have visits := walk_perm_range (t.startBucketIndex_le targetId) reaches
  rw [Nat.sub_add_cancel nonempty] at visits
  rw [← flatMap_entriesAt]
  exact visits.flatMap_right _

/-- Any other walk meets every entry outside bucket 0. -/
theorem alongWalk_perm_beyondFirst (nonempty : 0 < t.table.length)
    (misses : ¬ ReachesZero (t.startBucketIndex targetId) (t.table.length - 1)) :
    (t.alongWalk targetId).Perm t.entriesBeyondFirst := by
  have visits := cons_walk_perm_range (t.startBucketIndex_le targetId) misses
  rw [Nat.sub_add_cancel nonempty] at visits
  have entries := visits.flatMap_right t.entriesAt
  rw [flatMap_entriesAt, storedEntries_eq_append nonempty, List.flatMap_cons] at entries
  exact (List.perm_append_left_iff _).mp entries

/-- The answer that is asked for: as many entries as there are, up to `k`, all
stored and under distinct ids. -/
def FillsAnswer (k : Nat) (t : RoutingTable) (targetId : NodeId) : Prop :=
  ∃ result exactMatch, t.findNodeWithoutSelf targetId = some (result, exactMatch) ∧
    result.length = min k t.storedEntries.length ∧ result ⊆ t.storedEntries ∧
    (result.map NodeInfo.nodeId).Nodup

/-- Bucket 0 is reached, or empty, or not needed. -/
def CanDoWithoutFirst (k : Nat) (t : RoutingTable) (targetId : NodeId) : Prop :=
  ReachesZero (t.startBucketIndex targetId) (t.table.length - 1) ∨ t.entriesAt 0 = [] ∨
    k ≤ t.entriesBeyondFirst.length

/-- The entries along the walk are stored and have distinct ids. -/
theorem alongWalk_subperm (nonempty : 0 < t.table.length) (targetId : NodeId) :
    (t.alongWalk targetId).Subperm t.storedEntries := by
  by_cases reaches : ReachesZero (t.startBucketIndex targetId) (t.table.length - 1)
  · exact (alongWalk_perm_stored nonempty reaches).subperm
  · rw [storedEntries_eq_append nonempty]
    exact (alongWalk_perm_beyondFirst nonempty reaches).subperm.trans
      (List.sublist_append_right _ _).subperm

/-- The walk meets `k` entries, or all of them, exactly when it can do without bucket 0. -/
theorem length_alongWalk_iff (nonempty : 0 < t.table.length) (k : Nat) (targetId : NodeId) :
    min k (t.alongWalk targetId).length = min k t.storedEntries.length ↔
      CanDoWithoutFirst k t targetId := by
  unfold CanDoWithoutFirst
  by_cases reaches : ReachesZero (t.startBucketIndex targetId) (t.table.length - 1)
  · rw [(alongWalk_perm_stored nonempty reaches).length_eq]
    exact ⟨fun _ => Or.inl reaches, fun _ => rfl⟩
  · rw [(alongWalk_perm_beyondFirst nonempty reaches).length_eq,
      storedEntries_eq_append nonempty, List.length_append, ← List.length_eq_zero_iff]
    constructor
    · intro same
      right
      omega
    · rintro (reached | rest)
      · exact absurd reached reaches
      · omega

/-- In every reachable table, a lookup of a target that is not stored fills its
answer exactly when it can do without bucket 0. -/
theorem fillsAnswer_iff (k : Nat) (positive : 1 ≤ k) (self : NodeInfo) (offered : List NodeInfo)
    (t : RoutingTable) (run : (newRoutingTable k self).addEntries offered = some t)
    (targetId : NodeId) (absent : t.NotStored targetId) :
    FillsAnswer k t targetId ↔ CanDoWithoutFirst k t targetId := by
  obtain ⟨m, run', least⟩ := addEntries_eq_tableOf positive self offered
  rw [run', Option.some_inj] at run
  have size : t.bucketSize = k := by rw [← run]; rfl
  have nonempty : 0 < t.table.length := by simp [← run]
  have distinct : (t.storedEntries.map NodeInfo.nodeId).Nodup := by
    rw [← run, storedEntries_tableOf]
    exact nodup_keys_reference (nodup_keys_firsts NodeInfo.nodeId offered)
  have found := findNodeWithoutSelf_eq nonempty absent
  rw [size] at found
  have within := alongWalk_subperm nonempty targetId
  rw [← length_alongWalk_iff nonempty]
  constructor
  · rintro ⟨result, exactMatch, returned, amount, _, _⟩
    rw [found] at returned
    cases returned
    rwa [List.length_take] at amount
  · intro amount
    refine ⟨_, false, found, by rwa [List.length_take], ?_, ?_⟩
    · exact fun entry member => within.subset (List.mem_of_mem_take member)
    · obtain ⟨entries, sameEntries, stored⟩ := within
      have walkDistinct := (sameEntries.map NodeInfo.nodeId).nodup_iff.mp
        (distinct.sublist (stored.map _))
      exact walkDistinct.sublist ((List.take_sublist _ _).map _)

/-- Two contacts in bucket 0 and one in bucket 1, with room for two in each. -/
def threeContacts : Option RoutingTable :=
  (newRoutingTable 2 (contact 0)).addEntries [contact 255, contact 128, contact 64]

/-- A target that belongs to bucket 0 gets a full answer. -/
theorem fillsAnswer_iff_contacts :
    ∃ t, threeContacts = some t ∧ t.NotStored (contact 192).nodeId ∧
      FillsAnswer 2 t (contact 192).nodeId := by
  have run : threeContacts = some (threeContacts.get (by decide +kernel)) := by
    decide +kernel
  have absent : (threeContacts.get (by decide +kernel)).NotStored (contact 192).nodeId := by
    unfold NotStored
    decide +kernel
  refine ⟨_, run, absent, ?_⟩
  apply (fillsAnswer_iff 2 (by decide) (contact 0) _ _ run _ absent).mpr
  exact Or.inl (Or.inl (by decide +kernel))

/-- A target next to bucket 1 gets one contact, though three are stored. -/
theorem not_fillsAnswer_contacts :
    ∃ t, threeContacts = some t ∧ t.NotStored (contact 32).nodeId ∧
      (contact 32).nodeId ≠ t.thisNodeInfo.nodeId ∧ ¬ FillsAnswer 2 t (contact 32).nodeId := by
  have run : threeContacts = some (threeContacts.get (by decide +kernel)) := by
    decide +kernel
  refine ⟨_, run, by unfold NotStored; decide +kernel, by decide +kernel, ?_⟩
  rintro ⟨result, exactMatch, returned, amount, _⟩
  have one : (threeContacts.get (by decide +kernel)).findNodeWithoutSelf (contact 32).nodeId =
      some ([contact 64], false) := by
    decide +kernel
  rw [one] at returned
  cases returned
  exact absurd amount (by decide +kernel)

end MainlineDht.Go.RoutingTable
