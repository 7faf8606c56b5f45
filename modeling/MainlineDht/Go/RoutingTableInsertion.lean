import MainlineDht.Go.RoutingTableReference

/-!
# Insertion into the Go routing table ends in time

A call of `addEntryRec` may split the last bucket and call itself again without
the full bucket becoming any emptier.  What it uses up is the bits that an id
can share with this node's: the recursion is at most 160 calls deep, no table on
the way has more than 161 buckets, and no call of it panics.
-/

namespace MainlineDht.Go.RoutingTable

open Buckets NodeId

variable {t u t' : RoutingTable} {entry : NodeInfo} {bucket : Bucket} {position : Int} {depth : Nat}

/-- The index into the table that `addEntryRec` computes. -/
def bucketIndex (t : RoutingTable) (entry : NodeInfo) : Int :=
  min (commonPrefixLength t.thisNodeInfo.nodeId entry.nodeId) t.currentMaxPrefixLength

/-- The bucket and the bit position that `addEntryRec` passes to `splitAt`, if
it gets that far. -/
def splitCall (t : RoutingTable) (entry : NodeInfo) : Option (Bucket × Int) :=
  match t.bucketAt (t.bucketIndex entry) with
  | none => none
  | some bucket =>
      if (bucket.addEntry entry).2 then none
      else if (commonPrefixLength t.thisNodeInfo.nodeId entry.nodeId : Int) <
          t.currentMaxPrefixLength then none
      else some (bucket, t.bucketIndex entry)

/-- `addEntryRec` on the first table calls itself on the second one, after as
many splits as the depth says. -/
inductive Recurses (entry : NodeInfo) : Nat → RoutingTable → RoutingTable → Prop
  | outermost (t : RoutingTable) : Recurses entry 0 t t
  | deeper {depth : Nat} {t u : RoutingTable} {bucket zeroBucket oneBucket : Bucket}
      {position : Int} {own : Bool} : t.splitCall entry = some (bucket, position) →
      bucket.splitAt position = some (zeroBucket, oneBucket) →
      isBitSet t.thisNodeInfo.nodeId position.toNat = some own →
      Recurses entry depth
        { t with
          table := t.table.set position.toNat (if own then zeroBucket else oneBucket) ++
            [if own then oneBucket else zeroBucket] } u →
      Recurses entry (depth + 1) t u

theorem splitCall_eq_some (called : t.splitCall entry = some (bucket, position)) :
    t.bucketAt (t.bucketIndex entry) = some bucket ∧ position = t.bucketIndex entry ∧
      (bucket.addEntry entry).2 = false ∧
      ¬ (commonPrefixLength t.thisNodeInfo.nodeId entry.nodeId : Int) <
        t.currentMaxPrefixLength := by
  unfold splitCall at called
  split at called
  · cases called
  · rename_i found
    split_ifs at called with success outside
    cases called
    exact ⟨found, rfl, by simpa using success, outside⟩

/-- The outer call returns what the inner one does. -/
theorem Recurses.addEntryRec_eq (recurses : Recurses entry depth t u) :
    t.addEntryRec entry = u.addEntryRec entry := by
  induction recurses with
  | outermost => rfl
  | @deeper _ t u bucket _ _ position _ called split bit _ ih =>
      obtain ⟨found, position_eq, refused, within⟩ := splitCall_eq_some called
      obtain ⟨i, isIndex⟩ := Int.eq_ofNat_of_zero_le (Bucket.splitAt_position split).1
      have index : t.IndexOf entry i := position_eq.symm.trans isIndex
      rw [← position_eq, isIndex] at found
      rw [isIndex] at split
      rw [isIndex, Int.toNat_natCast] at bit ih
      rw [addEntryRec_of_split index found refused within split bit, ih]

/-- Every split adds a bucket. -/
theorem Recurses.length_eq (recurses : Recurses entry depth t u) :
    u.table.length = t.table.length + depth := by
  induction recurses with
  | outermost => rfl
  | deeper _ _ _ _ ih =>
      rw [ih]
      simp only [List.length_append, List.length_set, List.length_singleton]
      omega

/-- No call takes buckets away. -/
theorem length_le_of_addEntryRec (added : t.addEntryRec entry = some t') :
    t.table.length ≤ t'.table.length := by
  fun_induction addEntryRec t entry with
  | case1 | case4 | case5 => cases added
  | case2 =>
      cases added
      rw [List.length_set]
  | case3 =>
      cases added
      exact Nat.le_refl _
  | case6 | case7 =>
      rename_i ih
      have grows := ih added
      simp only [List.length_append, List.length_set, List.length_singleton] at grows
      omega

theorem bucketIndex_of_isSome (found : (t.bucketAt (t.bucketIndex entry)).isSome) :
    0 ≤ t.bucketIndex entry ∧ t.bucketIndex entry < t.table.length := by
  unfold bucketAt at found
  split_ifs at found with nonnegative
  · obtain ⟨bucket, isBucket⟩ := Option.isSome_iff_exists.mp found
    have inside := (List.getElem?_eq_some_iff.mp isBucket).1
    omega
  · cases found

/-- A call that returns has found its bucket. -/
theorem bucketAt_of_addEntryRec (added : t.addEntryRec entry = some t') :
    (t.bucketAt (t.bucketIndex entry)).isSome := by
  cases found : t.bucketAt (t.bucketIndex entry) with
  | some => rfl
  | none =>
      have panics : t.addEntryRec entry = none := by
        rw [addEntryRec, ← bucketIndex, found]
      rw [panics] at added
      cases added

/-- A call that returns has split inside the ids. -/
theorem position_of_addEntryRec (added : t.addEntryRec entry = some t')
    (called : t.splitCall entry = some (bucket, position)) : 0 ≤ position ∧ position ≤ 159 := by
  obtain ⟨found, rfl, refused, within⟩ := splitCall_eq_some called
  have split : (bucket.splitAt (t.bucketIndex entry)).isSome := by
    cases split : bucket.splitAt (t.bucketIndex entry) with
    | some => rfl
    | none =>
        have panics : t.addEntryRec entry = none := by
          rw [addEntryRec, ← bucketIndex, found]
          simp only [refused, Bool.false_eq_true, if_false, dif_neg within]
          split
          · rfl
          · rename_i divides
            rw [split] at divides
            cases divides
        rw [panics] at added
        cases added
  obtain ⟨buckets, split⟩ := Option.isSome_iff_exists.mp split
  exact Bucket.splitAt_position split

/-- What is asked of one call of `addEntryRec`: it returns, what it indexes is
there, it splits inside the ids, and its table is no larger than ids are long. -/
structure InRange (t : RoutingTable) (entry : NodeInfo) : Prop where
  returns : ∃ t', t.addEntryRec entry = some t'
  index : 0 ≤ t.bucketIndex entry ∧ t.bucketIndex entry < t.table.length
  split : ∀ bucket position, t.splitCall entry = some (bucket, position) →
    0 ≤ position ∧ position ≤ 159
  size : t.table.length ≤ 161

theorem inRange_of_addEntryRec (added : t.addEntryRec entry = some t')
    (size : t'.table.length ≤ 161) : t.InRange entry where
  returns := ⟨t', added⟩
  index := bucketIndex_of_isSome (bucketAt_of_addEntryRec added)
  split _ _ called := position_of_addEntryRec added called
  size := (length_le_of_addEntryRec added).trans size

/-- At depth 160 there is room for the one id that goes there. -/
theorem length_deep_le_one (self : NodeInfo) (offered : List NodeInfo) :
    (deep (sharedBits self) (distinctOffers offered) 160).length ≤ 1 := by
  have isSelf (entry : NodeInfo) (member : entry ∈ deep (sharedBits self) (distinctOffers offered) 160) :
      entry.nodeId = self.nodeId := by
    have shared := (mem_deep.mp member).2
    rw [sharedBits, Function.comp_apply, commonPrefixLength_eq] at shared
    exact ((prefixLength_eq_iff _ _).mp (le_antisymm (prefixLength_le _ _) shared)).symm
  have distinct : ((deep (sharedBits self) (distinctOffers offered) 160).map NodeInfo.nodeId).Nodup :=
    (nodup_keys_firsts NodeInfo.nodeId offered).sublist (List.filter_sublist.map _)
  have same : (deep (sharedBits self) (distinctOffers offered) 160).map NodeInfo.nodeId =
      List.replicate (deep (sharedBits self) (distinctOffers offered) 160).length self.nodeId :=
    List.map_eq_replicate_iff.mpr isSelf
  rw [same, List.nodup_replicate] at distinct
  exact distinct

/-- A run returns a table of at most 161 buckets. -/
theorem exists_addEntries {k : Nat} (positive : 1 ≤ k) (self : NodeInfo)
    (offered : List NodeInfo) :
    ∃ t, (newRoutingTable k self).addEntries offered = some t ∧ t.table.length ≤ 161 := by
  obtain ⟨m, run, least⟩ := addEntries_eq_tableOf positive self offered
  have upTo : m ≤ 160 := least.2 ((length_deep_le_one self offered).trans positive)
  refine ⟨_, run, ?_⟩
  rw [tableOf_table, List.length_map, length_reference]
  exact Nat.succ_le_succ upTo

theorem addEntries_concat (k : Nat) (self : NodeInfo) (offered : List NodeInfo)
    (run : (newRoutingTable k self).addEntries offered = some t) :
    (newRoutingTable k self).addEntries (offered ++ [entry]) = t.addEntryRec entry := by
  rw [addEntries, List.foldlM_append, ← addEntries, run]
  simp [addEntry]

/-- Whatever was offered before and whatever is offered next, every call of
`addEntryRec` that this makes is in range, and at most 160 of them are nested. -/
theorem inRange_of_recurses (k : Nat) (positive : 1 ≤ k) (self : NodeInfo)
    (offered : List NodeInfo) :
    ∃ t, (newRoutingTable k self).addEntries offered = some t ∧ t.table.length ≤ 161 ∧
      ∀ entry depth u, Recurses entry depth t u → depth ≤ 160 ∧ u.InRange entry := by
  obtain ⟨t, run, size⟩ := exists_addEntries positive self offered
  refine ⟨t, run, size, ?_⟩
  intro entry depth u recurses
  obtain ⟨t', run', size'⟩ := exists_addEntries positive self (offered ++ [entry])
  rw [addEntries_concat k self offered run, recurses.addEntryRec_eq] at run'
  have inRange := inRange_of_addEntryRec run' size'
  have nonempty : 0 < t.table.length := by
    have returns : t.addEntryRec entry = some t' := recurses.addEntryRec_eq.trans run'
    have index := bucketIndex_of_isSome (bucketAt_of_addEntryRec returns)
    omega
  have length := recurses.length_eq
  have bound := inRange.size
  exact ⟨by omega, inRange⟩

/-- A contact that shares all bits but the last one with `contact 0`. -/
def neighbour : NodeInfo where
  nodeId := ⟨(List.replicate 20 0).set 19 1, rfl⟩
  address := { ip := [127, 0, 0, 1], port := 6881, zone := [] }

/-- The call for the neighbour of a node whose own id fills the only bucket. -/
theorem inRange_of_recurses_neighbour :
    ∃ t, (newRoutingTable 1 (contact 0)).addEntries [contact 0] = some t ∧
      t.InRange neighbour := by
  obtain ⟨t, run, _, inRange⟩ := inRange_of_recurses 1 (by decide) (contact 0) [contact 0]
  exact ⟨t, run, (inRange neighbour 0 t (.outermost t)).2⟩

end MainlineDht.Go.RoutingTable
