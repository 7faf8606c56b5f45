import MainlineDht.NodeId.Prefixes
import MainlineDht.Rust.RoutingTableInvariant

/-!
# How far the Rust routing table is divided

A bucket is divided when it is full.  Only so many ids share many bits with the
reference id, so the last buckets are never divided; all others may be, if the
right nodes come in the right order.
-/

namespace MainlineDht.Rust.RoutingTable

open Intervals NodeId Transition

variable {t t' : RoutingTable} {bucket : Bucket} {before : List Bucket} {node : NodeContactInfo}
  {seenIn : SeenIn} {now : Instant} {referenceId : NodeId} {k : Nat}

/-! ## No more buckets than that -/

theorem Sound.nodup_idsOf_bucket (sound : t.Sound) (isBucket : bucket ∈ t.buckets) :
    (idsOf bucket.entries.items).Nodup := by
  rcases List.append_of_mem isBucket with ⟨before, after, buckets_eq⟩
  have distinct := sound.distinct
  rw [storedEntries, buckets_eq, entriesOf_append, entriesOf_cons, idsOf_append,
    idsOf_append] at distinct
  exact distinct.of_append_right.of_append_left

/-- The ids of a full bucket and the reference id are nine ids. -/
theorem Sound.start_le_of_full (sound : t.Sound) (isBucket : bucket ∈ t.buckets)
    (full : bucket.entries.items.length = bucketSize) : bucket.bounds.start ≤ 156 := by
  by_contra deep
  have inBounds := (sound.bucket bucket isBucket).inBounds
  have nine : (t.referenceId :: idsOf bucket.entries.items).Nodup := by
    refine List.nodup_cons.mpr ⟨?_, sound.nodup_idsOf_bucket isBucket⟩
    rw [mem_idsOf]
    rintro ⟨entry, member, same⟩
    exact sound.ne_referenceId (List.mem_flatMap.mpr ⟨bucket, isBucket, member⟩) same
  have share : ∀ id ∈ t.referenceId :: idsOf bucket.entries.items,
      157 ≤ prefixLength t.referenceId id := by
    intro id member
    rcases List.mem_cons.mp member with rfl | inBucket
    · rw [(prefixLength_eq_iff t.referenceId t.referenceId).mpr rfl]
      decide
    · rcases mem_idsOf.mp inBucket with ⟨entry, held, rfl⟩
      have inside := (Range.contains_iff.mp (inBounds entry held)).1
      rw [commonPrefixLength_eq] at inside
      omega
  have few := length_le_of_prefixLength (by decide) nine share
  rw [List.length_cons, idsOf, List.length_map, full] at few
  exact absurd few (by decide)

/-- No bucket starts deeper than that. -/
def Shallow (t : RoutingTable) : Prop :=
  ∀ bucket ∈ t.buckets, bucket.bounds.start ≤ 157

theorem Sound.shallow_of_update (sound : t.Sound) (shallow : t.Shallow)
    (updated : t.update node seenIn now = some t') : t'.Shallow := by
  by_cases same : node.id = t.referenceId
  · rw [sound.update_reference same] at updated
    cases updated
  · rcases sound.update_effect same seenIn now with
      ⟨before, bucket, after, news, located, result, effect⟩
    cases result.symm.trans updated
    have others := shallow
    rw [Shallow, located.buckets_eq, List.forall_mem_append, List.forall_mem_cons] at others
    have newsShallow : ∀ new ∈ news, new.bounds.start ≤ 157 := by
      cases effect with
      | refreshed | pushed | replaced | discarded =>
          exact List.forall_mem_singleton.mpr others.2.1
      | split _ full =>
          have early := sound.start_le_of_full located.isBucket full
          rw [List.forall_mem_cons, List.forall_mem_singleton]
          exact ⟨others.2.1, Nat.succ_le_succ early⟩
    rw [Shallow, List.forall_mem_append, List.forall_mem_append]
    exact ⟨⟨others.1, newsShallow⟩, others.2.2⟩

/-- The buckets start at different depths. -/
theorem Sound.length_buckets_le (sound : t.Sound) (shallow : t.Shallow) :
    t.buckets.length ≤ 158 := by
  have increasing : (t.buckets.map fun bucket => bucket.bounds.start).Pairwise (· < ·) := by
    have apart := sound.consecutive.pairwise
    rw [List.pairwise_map] at apart ⊢
    apply apart.imp_of_mem
    intro bucket other isBucket _ ends
    have nonempty := (sound.consecutive.within (List.mem_map_of_mem isBucket)).2.1
    exact Nat.lt_of_lt_of_le nonempty ends
  have within : (t.buckets.map fun bucket => bucket.bounds.start) ⊆ List.range 158 := by
    intro start member
    rcases List.mem_map.mp member with ⟨bucket, isBucket, rfl⟩
    exact List.mem_range.mpr (Nat.lt_succ_of_le (shallow bucket isBucket))
  have distinct : (t.buckets.map fun bucket => bucket.bounds.start).Nodup :=
    increasing.imp Nat.ne_of_lt
  have few := (distinct.subperm within).length_le
  rwa [List.length_map, List.length_range] at few

theorem shallow_of_reachable (reachable : Reachable step (new referenceId) t) : t.Shallow := by
  rcases reachable with ⟨history, run⟩
  have holds : t.Sound ∧ t.Shallow := by
    apply run.invariant ⟨new_sound referenceId, List.forall_mem_singleton.mpr (Nat.zero_le _)⟩
    rintro before action after ⟨sound, shallow⟩ stepped
    exact ⟨(sound.update stepped).1, sound.shallow_of_update shallow stepped⟩
  exact holds.2

/-! ## One more division -/

theorem Sound.located_last (sound : t.Sound) (buckets_eq : t.buckets = before ++ [bucket])
    {prefixLen : Nat} (inside : bucket.bounds.contains prefixLen) :
    t.Located prefixLen before bucket [] where
  buckets_eq := buckets_eq
  inside := inside
  first other member := by
    have consecutive := sound.consecutive
    rw [buckets_eq, List.map_append, List.map_singleton] at consecutive
    exact consecutive.not_contains inside (Or.inl (List.mem_map_of_mem member))

/-- Whether an entry of the bucket from a prefix length on goes to its upper half. -/
def goesUp (referenceId : NodeId) (k : Nat) (entry : RoutingEntry) : Bool :=
  (⟨k + 1, 160⟩ : Range Nat).contains (commonPrefixLength referenceId entry.node.id)

/-- The last bucket is divided by a referral if it is full of entries that have
only been referred to, and not all of them go where the new one goes. -/
theorem Sound.splits (sound : t.Sound) {entries : FixedVec RoutingEntry}
    (buckets_eq : t.buckets = before ++ [⟨entries, ⟨k, 160⟩⟩])
    (full : entries.items.length = bucketSize)
    (unheard : ∀ entry ∈ entries.items, entry = RoutingEntry.new entry.node)
    (unknown : ∀ entry ∈ entries.items, entry.node.id ≠ node.id)
    (inside : (⟨k, 160⟩ : Range Nat).contains (commonPrefixLength t.referenceId node.id))
    (apart : ∃ entry ∈ entries.items,
      goesUp t.referenceId k entry ≠ goesUp t.referenceId k (RoutingEntry.new node)) :
    ∃ t' lowerEntries upperEntries, t.update node .referral 0 = some t' ∧
      t'.referenceId = t.referenceId ∧
      t'.buckets = before ++ [⟨lowerEntries, ⟨k, k + 1⟩⟩, ⟨upperEntries, ⟨k + 1, 160⟩⟩] ∧
      upperEntries.items.Perm
        ((RoutingEntry.new node :: entries.items).filter (goesUp t.referenceId k)) := by
  have located := sound.located_last buckets_eq inside
  have holds := (sound.bucket _ located.isBucket).holds
  rcases located.update rfl holds .referral 0 with ⟨news, updated, effect⟩
  cases effect with
  | @refreshed earlier later entry _ items_eq same =>
      have member : entry ∈ entries.items := by
        rw [items_eq]
        exact List.mem_append_cons_self
      exact absurd same (unknown entry member)
  | pushed _ room => exact absurd full (Nat.ne_of_lt room)
  | @replaced earlier later badEntry _ _ _ items_eq isBad =>
      have member : badEntry ∈ entries.items := by
        rw [items_eq]
        exact List.mem_append_cons_self
      rw [unheard badEntry member] at isBad
      cases isBad
  | @split lower upper lowerEntries upperEntries _ _ _ _ _ holdsUpper perm falls rises =>
      refine ⟨_, lowerEntries, upperEntries, updated, rfl, ?_, ?_⟩
      · rw [List.append_nil]
        rfl
      · have stay : lower.filter (goesUp t.referenceId k) = [] := List.filter_eq_nil_iff.mpr falls
        have go : upper.filter (goesUp t.referenceId k) = upper := List.filter_eq_self.mpr rises
        have filtered := perm.filter (goesUp t.referenceId k)
        rw [List.filter_append, stay, go, List.nil_append] at filtered
        rwa [holdsUpper.items_eq]
  | discarded _ _ _ together =>
      rcases apart with ⟨entry, member, differ⟩
      exact absurd (Bool.eq_iff_iff.mpr (together entry member)) differ

/-! ## As many buckets as that -/

/-- Seven nodes that no division up to the last one parts. -/
structure Deepest (referenceId : NodeId) (deepest : List NodeContactInfo) : Prop where
  count : deepest.length = 7
  distinct : (deepest.map NodeContactInfo.id).Nodup
  other : ∀ node ∈ deepest, node.id ≠ referenceId
  deep : ∀ node ∈ deepest, 157 ≤ commonPrefixLength referenceId node.id

/-- The table is divided up to a prefix length.  Its last bucket is full of the
deepest nodes and of one that has this prefix length. -/
structure Stage (deepest : List NodeContactInfo) (learned : NodeContactInfo) (k : Nat)
    (t : RoutingTable) : Prop where
  sound : t.Sound
  atStage : commonPrefixLength t.referenceId learned.id = k
  buckets : ∃ before entries, t.buckets = before ++ [⟨entries, ⟨k, 160⟩⟩] ∧ before.length = k ∧
    entries.items.Perm ((learned :: deepest).map RoutingEntry.new)

variable {deepest : List NodeContactInfo} {learned : NodeContactInfo}

theorem goesUp_new (below : commonPrefixLength referenceId node.id < 160) :
    goesUp referenceId k (RoutingEntry.new node) = true ↔
      k < commonPrefixLength referenceId node.id := by
  rw [goesUp, Range.contains_iff]
  exact and_iff_left below

theorem Deepest.goesUp (isDeepest : Deepest referenceId deepest) (early : k ≤ 156)
    (member : node ∈ deepest) : goesUp referenceId k (RoutingEntry.new node) = true := by
  have below := (commonPrefixLength_lt_iff referenceId node.id).mpr (isDeepest.other node member)
  have deep := isDeepest.deep node member
  exact (goesUp_new below).mpr (by omega)

/-- A new node at or above the stage divides the table. -/
theorem Stage.splits (stage : Stage deepest learned k t) (isDeepest : Deepest t.referenceId deepest)
    (early : k ≤ 156) (atOrAbove : k ≤ commonPrefixLength t.referenceId node.id)
    (above : commonPrefixLength t.referenceId node.id ≤ 156) (new : node.id ≠ learned.id) :
    ∃ t' before lowerEntries upperEntries, t.update node .referral 0 = some t' ∧
      t'.referenceId = t.referenceId ∧ before.length = k ∧
      t'.buckets = before ++ [⟨lowerEntries, ⟨k, k + 1⟩⟩, ⟨upperEntries, ⟨k + 1, 160⟩⟩] ∧
      upperEntries.items.Perm (((node :: learned :: deepest).map RoutingEntry.new).filter
        (goesUp t.referenceId k)) := by
  rcases stage.buckets with ⟨before, entries, buckets_eq, depth, perm⟩
  have full : entries.items.length = bucketSize := by
    rw [perm.length_eq, List.length_map, List.length_cons, isDeepest.count]
  have unheard : ∀ entry ∈ entries.items, entry = RoutingEntry.new entry.node := by
    intro entry member
    rcases List.mem_map.mp (perm.mem_iff.mp member) with ⟨_, _, rfl⟩
    rfl
  have unknown : ∀ entry ∈ entries.items, entry.node.id ≠ node.id := by
    intro entry member same
    rcases List.mem_map.mp (perm.mem_iff.mp member) with ⟨held, isHeld, rfl⟩
    rcases List.mem_cons.mp isHeld with rfl | isDeep
    · exact new same.symm
    · have deep := isDeepest.deep held isDeep
      rw [RoutingEntry.new_node] at same
      rw [same] at deep
      omega
  have inside : (⟨k, 160⟩ : Range Nat).contains (commonPrefixLength t.referenceId node.id) := by
    rw [Range.contains_iff]
    exact ⟨atOrAbove, by dsimp only; omega⟩
  have goes := @goesUp_new node t.referenceId k (by omega)
  have apart : ∃ entry ∈ entries.items,
      goesUp t.referenceId k entry ≠ goesUp t.referenceId k (RoutingEntry.new node) := by
    by_cases deeper : k < commonPrefixLength t.referenceId node.id
    · -- the one node at the stage stays behind
      have stays := @goesUp_new learned t.referenceId k (by rw [stage.atStage]; omega)
      rw [stage.atStage] at stays
      refine ⟨RoutingEntry.new learned, perm.mem_iff.mpr (List.mem_map_of_mem List.mem_cons_self), ?_⟩
      rw [goes.mpr deeper]
      exact fun goesUp => absurd (stays.mp goesUp) (Nat.lt_irrefl k)
    · -- the new node stays behind
      rcases List.exists_mem_of_length_pos (isDeepest.count ▸ (by decide : 0 < 7)) with
        ⟨deep, isDeep⟩
      refine ⟨RoutingEntry.new deep,
        perm.mem_iff.mpr (List.mem_map_of_mem (List.mem_cons_of_mem _ isDeep)), ?_⟩
      rw [isDeepest.goesUp early isDeep]
      exact fun goesUp => absurd (goes.mp goesUp.symm) deeper
  rcases stage.sound.splits buckets_eq full unheard unknown inside apart with
    ⟨t', lowerEntries, upperEntries, updated, sameId, buckets_eq', upperPerm⟩
  refine ⟨t', before, lowerEntries, upperEntries, updated, sameId, depth, buckets_eq', ?_⟩
  exact upperPerm.trans ((perm.cons _).filter _)

/-- One prefix length further. -/
theorem Stage.next (stage : Stage deepest learned k t) (isDeepest : Deepest t.referenceId deepest)
    (early : k + 1 ≤ 156) (atNext : commonPrefixLength t.referenceId node.id = k + 1) :
    ∃ t', t.update node .referral 0 = some t' ∧ t'.referenceId = t.referenceId ∧
      Stage deepest node (k + 1) t' := by
  have new : node.id ≠ learned.id := by
    intro same
    rw [same, stage.atStage] at atNext
    omega
  rcases @Stage.splits t node k deepest learned stage isDeepest (by omega) (by omega) (by omega) new with
    ⟨t', before, lowerEntries, upperEntries, updated, sameId, depth, buckets_eq, perm⟩
  refine ⟨t', updated, sameId, (stage.sound.update updated).1, by rw [sameId, atNext],
    before ++ [⟨lowerEntries, ⟨k, k + 1⟩⟩], upperEntries, ?_, ?_, ?_⟩
  · rw [buckets_eq, List.append_assoc]
    rfl
  · rw [List.length_append, depth]
    rfl
  · have goes := (@goesUp_new node t.referenceId k (by omega)).mpr (by omega)
    have stays : goesUp t.referenceId k (RoutingEntry.new learned) = false := by
      rw [← Bool.not_eq_true, goesUp_new (by rw [stage.atStage]; omega), stage.atStage]
      exact Nat.lt_irrefl k
    have go : (deepest.map RoutingEntry.new).filter (goesUp t.referenceId k) =
        deepest.map RoutingEntry.new := by
      rw [List.filter_eq_self]
      intro entry member
      rcases List.mem_map.mp member with ⟨held, isHeld, rfl⟩
      exact isDeepest.goesUp (by omega) isHeld
    rw [List.map_cons, List.map_cons, List.filter_cons_of_pos goes,
      List.filter_cons_of_neg (Bool.eq_false_iff.mp stays), go] at perm
    exact perm

/-- The first bucket takes in what it has room for. -/
theorem exists_filled {nodes : List NodeContactInfo}
    (distinct : (nodes.map NodeContactInfo.id).Nodup) (other : ∀ node ∈ nodes, node.id ≠ referenceId)
    (fits : nodes.length ≤ bucketSize) :
    ∃ t entries, Reachable step (new referenceId) t ∧ t.buckets = [⟨entries, ⟨0, 160⟩⟩] ∧
      entries.items = nodes.map RoutingEntry.new := by
  induction nodes using List.reverseRecOn with
  | nil => exact ⟨new referenceId, FixedVec.new, ⟨[], .initial⟩, rfl, FixedVec.Holds.new.items_eq⟩
  | append_singleton nodes node ih =>
      rw [List.map_append, List.nodup_append'] at distinct
      rw [List.forall_mem_append, List.forall_mem_singleton] at other
      rw [List.length_append, List.length_singleton] at fits
      rcases ih distinct.1 other.1 (Nat.le_of_succ_le fits) with
        ⟨t, entries, ⟨history, run⟩, buckets_eq, items_eq⟩
      rcases sound_of_reachable ⟨history, run⟩ with ⟨sound, rfl⟩
      have below := (commonPrefixLength_lt_iff t.referenceId node.id).mpr other.2
      have located := @Sound.located_last t ⟨entries, ⟨0, 160⟩⟩ [] sound buckets_eq _
        (Range.contains_iff.mpr ⟨Nat.zero_le _, below⟩)
      have unknown : ∀ entry ∈ entries.items, entry.node.id ≠ node.id := by
        intro entry member same
        rw [items_eq] at member
        rcases List.mem_map.mp member with ⟨held, isHeld, rfl⟩
        rw [List.map_singleton] at distinct
        exact distinct.2.2 (List.mem_map_of_mem isHeld) (List.mem_singleton.mpr same)
      have notFull : entries.items.length ≠ bucketSize := by
        rw [items_eq, List.length_map]
        exact Nat.ne_of_lt fits
      have holds := (sound.bucket _ located.isBucket).holds
      rcases located.update rfl holds .referral 0 with ⟨news, updated, effect⟩
      cases effect with
      | @refreshed earlier later entry _ entries_eq same =>
          have member : entry ∈ entries.items := by
            rw [entries_eq]
            exact List.mem_append_cons_self
          exact absurd same (unknown entry member)
      | @pushed pushed _ _ holdsPushed =>
          refine ⟨_, pushed, ⟨_, run.push (show step t ⟨node, .referral, 0⟩ = _ from updated)⟩, rfl, ?_⟩
          rw [holdsPushed.items_eq, items_eq, List.map_append]
          rfl
      | replaced _ full | split _ full | discarded _ full => exact absurd full notFull

theorem exists_node (referenceId : NodeId) (below : k < 160) :
    ∃ node : NodeContactInfo, commonPrefixLength referenceId node.id = k := by
  rcases exists_ids_at referenceId below with ⟨ids, _, count, depth⟩
  have positive : 0 < ids.length := by
    rw [count]
    exact Nat.two_pow_pos _
  rcases List.exists_mem_of_length_pos positive with ⟨id, isId⟩
  exact ⟨⟨id, ⟨0, 0⟩⟩, (commonPrefixLength_eq _ _).trans (depth id isId)⟩

/-- At the last stage there is another node. -/
theorem exists_other_node (referenceId id : NodeId) : ∃ node : NodeContactInfo,
    commonPrefixLength referenceId node.id = 156 ∧ node.id ≠ id := by
  rcases @exists_ids_at 156 referenceId (by decide) with ⟨ids, distinct, count, depth⟩
  have others : 0 < (ids.erase id).length := by
    have most := @List.le_length_erase _ _ _ id ids
    rw [count] at most
    exact Nat.lt_of_lt_of_le (by decide) most
  rcases List.exists_mem_of_length_pos others with ⟨other, isOther⟩
  rcases distinct.mem_erase_iff.mp isOther with ⟨ne, isId⟩
  exact ⟨⟨other, ⟨0, 0⟩⟩, (commonPrefixLength_eq _ _).trans (depth other isId), ne⟩

/-- All stages up to the last one are reached. -/
theorem exists_stage (isDeepest : Deepest referenceId deepest) (early : k ≤ 156) :
    ∃ t learned, Reachable step (new referenceId) t ∧ Stage deepest learned k t := by
  induction k with
  | zero =>
      rcases exists_node referenceId (by decide : 0 < 160) with ⟨learned, atStage⟩
      have other : learned.id ≠ referenceId := by
        rw [← commonPrefixLength_lt_iff, atStage]
        decide
      have distinct : ((learned :: deepest).map NodeContactInfo.id).Nodup := by
        refine List.nodup_cons.mpr ⟨?_, isDeepest.distinct⟩
        intro member
        rcases List.mem_map.mp member with ⟨deep, isDeep, same⟩
        have below := isDeepest.deep deep isDeep
        rw [same, atStage] at below
        omega
      rcases exists_filled distinct (List.forall_mem_cons.mpr ⟨other, isDeepest.other⟩)
        (by rw [List.length_cons, isDeepest.count]) with ⟨t, entries, reachable, buckets_eq, items_eq⟩
      rcases sound_of_reachable reachable with ⟨sound, sameId⟩
      exact ⟨t, learned, reachable, sound, by rw [sameId, atStage],
        [], entries, buckets_eq, rfl, items_eq ▸ List.Perm.refl _⟩
  | succ k ih =>
      rcases ih (by omega) with ⟨t, learned, ⟨history, run⟩, stage⟩
      rcases sound_of_reachable ⟨history, run⟩ with ⟨_, rfl⟩
      rcases exists_node t.referenceId (by omega : k + 1 < 160) with ⟨node, atNext⟩
      rcases stage.next isDeepest early atNext with ⟨t', updated, _, next⟩
      exact ⟨t', node, ⟨_, run.push (show step t ⟨node, .referral, 0⟩ = _ from updated)⟩, next⟩

/-- The greatest number of buckets that a table can have. -/
theorem isGreatest_bucketCounts (referenceId : NodeId) :
    IsGreatest { n | ∃ t, Reachable step (new referenceId) t ∧ t.buckets.length = n } 158 := by
  constructor
  · rcases @exists_others_of_prefixLength 157 referenceId (by decide) with ⟨ids, distinct, count, far⟩
    have sameIds : (ids.map fun id => NodeContactInfo.mk id ⟨0, 0⟩).map NodeContactInfo.id = ids := by
      rw [List.map_map]
      exact List.map_id ids
    have isDeepest : Deepest referenceId (ids.map fun id => ⟨id, ⟨0, 0⟩⟩) :=
      { count := by rw [List.length_map, count]; rfl
        distinct := sameIds.symm ▸ distinct
        other := List.forall_mem_map.mpr fun id isId => (far id isId).1
        deep := List.forall_mem_map.mpr fun id isId =>
          (commonPrefixLength_eq referenceId id).symm ▸ (far id isId).2 }
    rcases exists_stage isDeepest (Nat.le_refl 156) with ⟨t, learned, ⟨history, run⟩, stage⟩
    rcases sound_of_reachable ⟨history, run⟩ with ⟨_, rfl⟩
    rcases exists_other_node t.referenceId learned.id with ⟨node, atStage, new⟩
    rcases stage.splits isDeepest (Nat.le_refl 156) atStage.ge atStage.le new with
      ⟨t', before, lowerEntries, upperEntries, updated, _, depth, buckets_eq, _⟩
    refine ⟨t', ⟨_, run.push (show step t ⟨node, .referral, 0⟩ = _ from updated)⟩, ?_⟩
    rw [buckets_eq, List.length_append, depth]
    rfl
  · rintro n ⟨t, reachable, rfl⟩
    exact (sound_of_reachable reachable).1.length_buckets_le (shallow_of_reachable reachable)

end MainlineDht.Rust.RoutingTable
