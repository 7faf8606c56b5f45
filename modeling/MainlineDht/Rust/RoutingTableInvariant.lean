import MainlineDht.Rust.RoutingTableUpdate
import MainlineDht.Transition.Core
import Mathlib.Data.List.Nodup

/-!
# The representation invariant of the Rust routing table

The buckets cut the prefix lengths into consecutive ranges, and an entry is in
the bucket of its prefix length.  An update replaces one bucket by one or two
that cover the same lengths, which is why all of it is kept.
-/

namespace MainlineDht.Rust

open Intervals Transition

/-- The ids of entries. -/
def idsOf (items : List RoutingEntry) : List NodeId :=
  items.map fun entry => entry.node.id

@[simp]
theorem mem_idsOf {items : List RoutingEntry} {id : NodeId} :
    id ∈ idsOf items ↔ ∃ entry ∈ items, entry.node.id = id :=
  List.mem_map

@[simp]
theorem idsOf_append (first second : List RoutingEntry) :
    idsOf (first ++ second) = idsOf first ++ idsOf second :=
  List.map_append

@[simp]
theorem idsOf_cons (entry : RoutingEntry) (items : List RoutingEntry) :
    idsOf (entry :: items) = entry.node.id :: idsOf items :=
  rfl

/-- A bucket in a table with the reference id: its slots are in order, its
entries within its bounds, and it covers one prefix length or all the rest. -/
structure Bucket.Sound (referenceId : NodeId) (bucket : Bucket) : Prop where
  holds : bucket.entries.Holds bucket.entries.items
  inBounds : ∀ entry ∈ bucket.entries.items, Falls referenceId bucket.bounds entry
  width : bucket.bounds.stop = bucket.bounds.start + 1 ∨ bucket.bounds.stop = 160

theorem Bucket.Sound.of_holds {referenceId : NodeId} {entries : FixedVec RoutingEntry}
    {bounds : Range Nat} {items : List RoutingEntry} (holds : entries.Holds items)
    (inBounds : ∀ entry ∈ items, Falls referenceId bounds entry)
    (width : bounds.stop = bounds.start + 1 ∨ bounds.stop = 160) :
    Bucket.Sound referenceId ⟨entries, bounds⟩ := by
  have items_eq := holds.items_eq
  subst items_eq
  exact ⟨holds, inBounds, width⟩

namespace RoutingTable

/-- The entries of some buckets. -/
def entriesOf (buckets : List Bucket) : List RoutingEntry :=
  buckets.flatMap fun bucket => bucket.entries.items

/-- All entries of a table. -/
def storedEntries (t : RoutingTable) : List RoutingEntry :=
  entriesOf t.buckets

@[simp]
theorem entriesOf_cons (bucket : Bucket) (buckets : List Bucket) :
    entriesOf (bucket :: buckets) = bucket.entries.items ++ entriesOf buckets :=
  List.flatMap_cons

@[simp]
theorem entriesOf_append (first second : List Bucket) :
    entriesOf (first ++ second) = entriesOf first ++ entriesOf second :=
  List.flatMap_append

theorem not_mem_idsOf_entriesOf {buckets : List Bucket} {id : NodeId}
    (absent : ∀ bucket ∈ buckets, id ∉ idsOf bucket.entries.items) :
    id ∉ idsOf (entriesOf buckets) := by
  rw [mem_idsOf]
  rintro ⟨entry, member, same⟩
  obtain ⟨bucket, isBucket, inBucket⟩ := List.mem_flatMap.mp member
  exact absent bucket isBucket (mem_idsOf.mpr ⟨entry, inBucket, same⟩)

/-- The middle of a list without repetitions may be exchanged. -/
theorem nodup_replace {A : Type} {before middle after new : List A}
    (distinct : (before ++ (middle ++ after)).Nodup) (newDistinct : new.Nodup)
    (fresh : ∀ item ∈ new, item ∈ middle ∨ (item ∉ before ∧ item ∉ after)) :
    (before ++ new ++ after).Nodup := by
  simp only [List.nodup_append', List.disjoint_left, List.mem_append] at distinct ⊢
  obtain ⟨nodupBefore, ⟨_, nodupAfter, apartAfter⟩, apart⟩ := distinct
  refine ⟨⟨nodupBefore, newDistinct, ?_⟩, nodupAfter, ?_⟩
  · intro item inBefore inNew
    rcases fresh item inNew with inMiddle | ⟨notBefore, _⟩
    · exact apart inBefore (Or.inl inMiddle)
    · exact notBefore inBefore
  · rintro item (inBefore | inNew) inAfter
    · exact apart inBefore (Or.inr inAfter)
    · rcases fresh item inNew with inMiddle | ⟨_, notAfter⟩
      · exact apartAfter inMiddle inAfter
      · exact notAfter inAfter

/-- The buckets cut up all prefix lengths, each is sound, and no id is stored twice. -/
structure Sound (t : RoutingTable) : Prop where
  consecutive : Consecutive 0 160 (t.buckets.map Bucket.bounds)
  bucket : ∀ bucket ∈ t.buckets, bucket.Sound t.referenceId
  distinct : (idsOf t.storedEntries).Nodup

theorem new_sound (referenceId : NodeId) : (new referenceId).Sound where
  consecutive := ⟨rfl, by decide, rfl⟩
  bucket := by
    intro bucket member
    rw [List.mem_singleton.mp member]
    exact Bucket.Sound.of_holds FixedVec.Holds.new (by simp) (Or.inr rfl)
  distinct := by
    simp [storedEntries, entriesOf, new, Bucket.new, FixedVec.Holds.new.items_eq, idsOf]

/-! ## What an effect does to ids and bounds -/

namespace Effect

variable {referenceId : NodeId} {bucket : Bucket} {items : List RoutingEntry}
  {node : NodeContactInfo} {seenIn : SeenIn} {now : Instant} {news : List Bucket}

/-- An effect keeps ids, apart from one it may drop, and it may add that of a
node that was not there. -/
theorem ids (effect : Effect referenceId bucket items node seenIn now news) :
    ∃ kept, kept.Sublist (idsOf items) ∧
      ((idsOf (entriesOf news)).Perm kept ∨
        (node.id ∉ idsOf items ∧ (idsOf (entriesOf news)).Perm (node.id :: kept))) := by
  cases effect with
  | @refreshed earlier later entry entries items_eq same holds =>
      refine ⟨idsOf items, List.Sublist.refl _, Or.inl ?_⟩
      simp [entriesOf, holds.items_eq, items_eq]
  | @pushed entries unknown room holds =>
      refine ⟨idsOf items, List.Sublist.refl _, Or.inr ⟨by simpa using unknown, ?_⟩⟩
      simp only [entriesOf, List.flatMap_singleton, holds.items_eq, idsOf_append, idsOf_cons,
        freshEntry_node]
      exact List.perm_append_singleton _ _
  | @replaced earlier later badEntry entries unknown full items_eq isBad holds =>
      refine ⟨idsOf (earlier ++ later), ?_, Or.inr ⟨by simpa using unknown, ?_⟩⟩
      · rw [items_eq, idsOf_append, idsOf_append]
        exact (List.sublist_cons_self _ _).append_left _
      · simp only [entriesOf, List.flatMap_singleton, holds.items_eq, idsOf_append, idsOf_cons,
          freshEntry_node]
        exact List.perm_middle
  | @split lower upper entries upperEntries unknown full usable wide holds holdsUpper perm below
      above =>
      refine ⟨idsOf items, List.Sublist.refl _, Or.inr ⟨by simpa using unknown, ?_⟩⟩
      have permIds := perm.map fun entry => entry.node.id
      simpa [entriesOf, holds.items_eq, holdsUpper.items_eq, idsOf] using permIds
  | @discarded kept entries unknown full usable together holds perm =>
      refine ⟨idsOf items, List.Sublist.refl _, Or.inl ?_⟩
      simp only [entriesOf, List.flatMap_singleton, holds.items_eq]
      exact perm.map _

theorem ids_subset (effect : Effect referenceId bucket items node seenIn now news) {id : NodeId}
    (member : id ∈ idsOf (entriesOf news)) :
    id ∈ idsOf items ∨ (id = node.id ∧ node.id ∉ idsOf items) := by
  obtain ⟨kept, sublist, perm | ⟨new, perm⟩⟩ := effect.ids
  · exact Or.inl (sublist.subset (perm.mem_iff.mp member))
  · rcases List.mem_cons.mp (perm.mem_iff.mp member) with isNew | old
    · exact Or.inr ⟨isNew, new⟩
    · exact Or.inl (sublist.subset old)

theorem ids_nodup (effect : Effect referenceId bucket items node seenIn now news)
    (distinct : (idsOf items).Nodup) : (idsOf (entriesOf news)).Nodup := by
  obtain ⟨kept, sublist, perm | ⟨new, perm⟩⟩ := effect.ids
  · exact perm.nodup_iff.mpr (distinct.sublist sublist)
  · rw [perm.nodup_iff, List.nodup_cons]
    exact ⟨fun member => new (sublist.subset member), distinct.sublist sublist⟩

/-- The new buckets cover what the old one did. -/
theorem bounds (effect : Effect referenceId bucket items node seenIn now news)
    (nonempty : bucket.bounds.start < bucket.bounds.stop) :
    Consecutive bucket.bounds.start bucket.bounds.stop (news.map Bucket.bounds) := by
  cases effect with
  | refreshed | pushed | replaced | discarded => exact consecutive_singleton nonempty
  | split _ _ _ wide => exact consecutive_halves (Nat.lt_succ_self _) wide

/-- The new buckets are sound. -/
theorem sound (effect : Effect referenceId bucket items node seenIn now news)
    (inside : bucket.bounds.contains (commonPrefixLength referenceId node.id))
    (inBounds : ∀ entry ∈ items, Falls referenceId bucket.bounds entry)
    (width : bucket.bounds.stop = bucket.bounds.start + 1 ∨ bucket.bounds.stop = 160) :
    ∀ bucket ∈ news, bucket.Sound referenceId := by
  have freshInside : Falls referenceId bucket.bounds (freshEntry node seenIn now) := by
    rwa [Falls, freshEntry_node]
  cases effect with
  | refreshed items_eq same holds =>
      rw [List.forall_mem_singleton]
      apply Bucket.Sound.of_holds holds _ width
      subst items_eq
      rw [List.forall_mem_append, List.forall_mem_cons] at inBounds ⊢
      refine ⟨inBounds.1, ?_, inBounds.2.2⟩
      rw [Falls, RoutingEntry.update_node]
      exact inBounds.2.1
  | pushed unknown room holds =>
      rw [List.forall_mem_singleton]
      apply Bucket.Sound.of_holds holds _ width
      rw [List.forall_mem_append, List.forall_mem_singleton]
      exact ⟨inBounds, freshInside⟩
  | replaced unknown full items_eq isBad holds =>
      rw [List.forall_mem_singleton]
      apply Bucket.Sound.of_holds holds _ width
      subst items_eq
      rw [List.forall_mem_append, List.forall_mem_cons] at inBounds ⊢
      exact ⟨inBounds.1, freshInside, inBounds.2.2⟩
  | split unknown full usable wide holds holdsUpper perm below above =>
      rw [List.forall_mem_cons, List.forall_mem_singleton]
      constructor
      · apply Bucket.Sound.of_holds holds _ (Or.inl rfl)
        intro entry member
        have within : Falls referenceId bucket.bounds entry := by
          have isOld := perm.subset (List.mem_append_left _ member)
          rcases List.mem_cons.mp isOld with rfl | old
          · exact freshInside
          · exact inBounds entry old
        have notAbove := below entry member
        rw [Falls, Bucket.upperBounds_contains_iff] at notAbove
        rw [Falls, Range.contains_iff] at within
        rw [Falls, contains_succ_iff]
        omega
      · apply Bucket.Sound.of_holds holdsUpper above
        rcases width with narrow | last
        · exact absurd wide (by omega)
        · exact Or.inr last
  | discarded unknown full usable together holds perm =>
      rw [List.forall_mem_singleton]
      apply Bucket.Sound.of_holds holds _ width
      intro entry member
      exact inBounds entry (perm.mem_iff.mp member)

end Effect

/-! ## One update -/

section Update

variable {t t' : RoutingTable} {node : NodeContactInfo} {seenIn : SeenIn} {now : Instant}
  {before after news : List Bucket} {bucket : Bucket}

theorem Sound.covers (sound : t.Sound) {prefixLen : Nat} :
    (∃ bucket ∈ t.buckets, bucket.bounds.contains prefixLen) ↔ prefixLen < 160 := by
  have covered : (∃ range ∈ t.buckets.map Bucket.bounds, range.contains prefixLen) ↔
      0 ≤ prefixLen ∧ prefixLen < 160 :=
    sound.consecutive.covers
  simpa using covered

/-- The prefix lengths of all ids but the reference id are below 160. -/
theorem commonPrefixLength_lt_iff (referenceId id : NodeId) :
    commonPrefixLength referenceId id < 160 ↔ id ≠ referenceId := by
  have upTo := NodeId.prefixLength_le referenceId id
  have equal := NodeId.prefixLength_eq_iff referenceId id
  rw [commonPrefixLength_eq, Nat.lt_iff_le_and_ne, and_iff_right upTo, Ne, equal, eq_comm]

/-- Every id but the reference id has its bucket. -/
theorem Sound.exists_located (sound : t.Sound) {id : NodeId} (different : id ≠ t.referenceId) :
    ∃ before bucket after,
      t.Located (commonPrefixLength t.referenceId id) before bucket after := by
  apply RoutingTable.exists_located
  rw [sound.covers, commonPrefixLength_lt_iff]
  exact different

/-- The reference id is not stored. -/
theorem Sound.ne_referenceId (sound : t.Sound) {entry : RoutingEntry}
    (stored : entry ∈ t.storedEntries) :
    entry.node.id ≠ t.referenceId := by
  rcases List.mem_flatMap.mp stored with ⟨bucket, isBucket, member⟩
  rw [← commonPrefixLength_lt_iff]
  exact sound.covers.mp ⟨bucket, isBucket, (sound.bucket bucket isBucket).inBounds entry member⟩

/-- The reference id has none. -/
theorem Sound.findBucket_reference (sound : t.Sound) :
    t.findBucket (commonPrefixLength t.referenceId t.referenceId) = none := by
  apply findBucket_eq_none
  intro bucket member inside
  have covered := sound.covers.mp ⟨bucket, member, inside⟩
  rw [commonPrefixLength_lt_iff] at covered
  exact covered rfl

theorem Located.mem {prefixLen : Nat} (located : t.Located prefixLen before bucket after)
    {other : Bucket} (member : other ∈ before ∨ other = bucket ∨ other ∈ after) :
    other ∈ t.buckets := by
  rw [located.buckets_eq, List.mem_append, List.mem_cons]
  exact member

/-- No other bucket contains the prefix length. -/
theorem Sound.not_contains (sound : t.Sound) {prefixLen : Nat}
    (located : t.Located prefixLen before bucket after) {other : Bucket}
    (elsewhere : other ∈ before ∨ other ∈ after) : ¬ other.bounds.contains prefixLen := by
  have consecutive := sound.consecutive
  rw [located.buckets_eq, List.map_append, List.map_cons] at consecutive
  apply consecutive.not_contains located.inside
  exact elsewhere.imp List.mem_map_of_mem List.mem_map_of_mem

/-- Entries of other buckets have other prefix lengths. -/
theorem Sound.prefix_ne (sound : t.Sound) {prefixLen : Nat}
    (located : t.Located prefixLen before bucket after) {other : Bucket}
    (elsewhere : other ∈ before ∨ other ∈ after) {entry : RoutingEntry}
    (member : entry ∈ other.entries.items) :
    commonPrefixLength t.referenceId entry.node.id ≠ prefixLen := by
  rintro rfl
  have isBucket := located.mem (elsewhere.imp_right Or.inr)
  exact sound.not_contains located elsewhere ((sound.bucket other isBucket).inBounds entry member)

theorem Sound.replace (sound : t.Sound)
    (located : t.Located (commonPrefixLength t.referenceId node.id) before bucket after)
    (effect : Effect t.referenceId bucket bucket.entries.items node seenIn now news) :
    Sound { t with buckets := before ++ news ++ after } := by
  have isBucket := located.isBucket
  obtain ⟨holds, inBounds, width⟩ := sound.bucket bucket isBucket
  have consecutive := sound.consecutive
  rw [located.buckets_eq, List.map_append, List.map_cons] at consecutive
  have nonempty := (consecutive.within (List.mem_append_right _ List.mem_cons_self)).2.1
  constructor
  · rw [List.map_append, List.map_append]
    exact consecutive.replace (effect.bounds nonempty)
  · have others := sound.bucket
    rw [located.buckets_eq, List.forall_mem_append, List.forall_mem_cons] at others
    rw [List.forall_mem_append, List.forall_mem_append]
    exact ⟨⟨others.1, effect.sound located.inside inBounds width⟩, others.2.2⟩
  · have distinct := sound.distinct
    rw [storedEntries, located.buckets_eq, entriesOf_append, entriesOf_cons, idsOf_append,
      idsOf_append] at distinct
    have own : (idsOf bucket.entries.items).Nodup :=
      distinct.of_append_right.of_append_left
    rw [storedEntries, entriesOf_append, entriesOf_append, idsOf_append, idsOf_append]
    apply nodup_replace distinct (effect.ids_nodup own)
    intro id member
    rcases effect.ids_subset member with old | ⟨rfl, _⟩
    · exact Or.inl old
    · have absent {other : Bucket} (elsewhere : other ∈ before ∨ other ∈ after) :
          node.id ∉ idsOf other.entries.items := by
        rw [mem_idsOf]
        rintro ⟨entry, member, same⟩
        exact sound.prefix_ne located elsewhere member (by rw [same])
      refine Or.inr ⟨?_, ?_⟩
      · exact not_mem_idsOf_entriesOf fun other earlier => absent (Or.inl earlier)
      · exact not_mem_idsOf_entriesOf fun other later => absent (Or.inr later)

/-- What an update of a node with another id than the reference id does. -/
theorem Sound.update_effect (sound : t.Sound) (different : node.id ≠ t.referenceId)
    (seenIn : SeenIn) (now : Instant) :
    ∃ before bucket after news,
      t.Located (commonPrefixLength t.referenceId node.id) before bucket after ∧
      t.update node seenIn now = some { t with buckets := before ++ news ++ after } ∧
      Effect t.referenceId bucket bucket.entries.items node seenIn now news := by
  obtain ⟨before, bucket, after, located⟩ := sound.exists_located different
  have isBucket := located.isBucket
  obtain ⟨news, updated, effect⟩ :=
    located.update rfl (sound.bucket bucket isBucket).holds seenIn now
  exact ⟨before, bucket, after, news, located, updated, effect⟩

/-- Updating the reference id itself panics. -/
theorem Sound.update_reference (sound : t.Sound) (same : node.id = t.referenceId)
    (seenIn : SeenIn) (now : Instant) : t.update node seenIn now = none := by
  have missing := sound.findBucket_reference
  rw [← same] at missing
  simp only [update, ← same, missing, Option.bind_eq_bind, Option.bind_none]
  split <;> rfl

/-- An update keeps the invariant and the reference id. -/
theorem Sound.update (sound : t.Sound) (updated : t.update node seenIn now = some t') :
    t'.Sound ∧ t'.referenceId = t.referenceId := by
  by_cases same : node.id = t.referenceId
  · rw [sound.update_reference same] at updated
    cases updated
  · obtain ⟨before, bucket, after, news, located, result, effect⟩ :=
      sound.update_effect same seenIn now
    rw [result] at updated
    cases updated
    exact ⟨sound.replace located effect, rfl⟩

end Update

/-! ## Runs of updates -/

/-- The arguments of an update, with the reading of the clock during it. -/
structure UpdateCall where
  node : NodeContactInfo
  seenIn : SeenIn
  now : Instant

/-- A table takes an update unless that panics. -/
def step : Step RoutingTable UpdateCall :=
  fun t call => t.update call.node call.seenIn call.now

theorem sound_of_reachable {referenceId : NodeId} {t : RoutingTable}
    (reachable : Reachable step (new referenceId) t) :
    t.Sound ∧ t.referenceId = referenceId := by
  obtain ⟨history, run⟩ := reachable
  apply run.invariant ⟨new_sound referenceId, rfl⟩
  rintro before action after ⟨sound, sameId⟩ stepped
  obtain ⟨soundAfter, keepsId⟩ := sound.update stepped
  exact ⟨soundAfter, keepsId.trans sameId⟩

/-- The table is represented as `find` and `update` rely on. -/
structure WellFormed (referenceId : NodeId) (t : RoutingTable) : Prop where
  reference : t.referenceId = referenceId
  nonempty : t.buckets ≠ []
  consecutive : Consecutive 0 160 (t.buckets.map Bucket.bounds)
  nonemptyBounds : ∀ bucket ∈ t.buckets, bucket.bounds.start < bucket.bounds.stop
  disjoint : t.buckets.Pairwise fun bucket other =>
    ∀ prefixLen, ¬ (bucket.bounds.contains prefixLen ∧ other.bounds.contains prefixLen)
  covers (prefixLen : Nat) :
    (∃ bucket ∈ t.buckets, bucket.bounds.contains prefixLen) ↔ prefixLen < 160
  single : ∀ bucket ∈ t.buckets.dropLast, bucket.bounds.stop = bucket.bounds.start + 1
  capacity : ∀ bucket ∈ t.buckets, bucket.entries.asSlice = some bucket.entries.items ∧
    bucket.entries.items.length ≤ 8
  inBounds : ∀ bucket ∈ t.buckets, ∀ entry ∈ bucket.entries.items,
    bucket.bounds.contains (commonPrefixLength referenceId entry.node.id)
  distinct : (t.storedEntries.map fun entry => entry.node.id).Nodup

theorem Sound.wellFormed {t : RoutingTable} (sound : t.Sound) : t.WellFormed t.referenceId where
  reference := rfl
  nonempty := by
    intro empty
    have covered := sound.covers.mpr (show 0 < 160 by decide)
    rw [empty] at covered
    simp at covered
  consecutive := sound.consecutive
  nonemptyBounds bucket member :=
    (sound.consecutive.within (List.mem_map_of_mem member)).2.1
  disjoint := by
    apply (List.pairwise_map.mp sound.consecutive.pairwise).imp
    rintro bucket other apart prefixLen ⟨inside, insideOther⟩
    rw [Range.contains_iff] at inside insideOther
    omega
  covers _ := sound.covers
  single bucket notLast := by
    have member := List.dropLast_subset _ notLast
    have before := sound.consecutive.stop_lt
      (by rw [← List.map_dropLast]; exact List.mem_map_of_mem notLast)
    exact (sound.bucket bucket member).width.resolve_right (Nat.ne_of_lt before)
  capacity bucket member :=
    ⟨(sound.bucket bucket member).holds.asSlice_eq, (sound.bucket bucket member).holds.capacity⟩
  inBounds bucket member := (sound.bucket bucket member).inBounds
  distinct := sound.distinct

/-- A run of updates that can be computed leads to a reachable table. -/
theorem exists_reachable {referenceId : NodeId} {calls : List UpdateCall}
    {check : RoutingTable → Bool}
    (checked : (perform step (new referenceId) calls).any check = true) :
    ∃ t, Reachable step (new referenceId) t ∧ check t = true := by
  obtain ⟨t, performed, holds⟩ := (Option.any_eq_true _ _).mp checked
  obtain ⟨history, run, _⟩ := Run.initial.append performed
  exact ⟨t, ⟨_, run⟩, holds⟩

/-- Every table that updates lead to is well-formed. -/
theorem wellFormed_of_reachable (referenceId : NodeId) (t : RoutingTable)
    (reachable : Reachable step (new referenceId) t) : t.WellFormed referenceId := by
  obtain ⟨sound, rfl⟩ := sound_of_reachable reachable
  exact sound.wellFormed

/-- The id of zeros but for its first byte. -/
def leadingId (byte : UInt8) : NodeId :=
  ⟨(List.replicate 20 0).set 0 byte, rfl⟩

/-- A referral of a node. -/
def referral (byte : UInt8) : UpdateCall where
  node := { id := leadingId byte, address := { ip := 2130706433, port := 6881 } }
  seenIn := .referral
  now := 0

/-- Eight nodes fill the first bucket, and the ninth splits it. -/
def nineReferrals : List UpdateCall :=
  [1, 2, 3, 4, 5, 6, 7, 128, 9].map referral

/-- The ninth node falls into the same half as all but one, and splits the table. -/
theorem wellFormed_of_reachable_split :
    ∃ t : RoutingTable, t.buckets.length = 2 ∧ t.WellFormed (leadingId 0) := by
  have splits : (perform step (new (leadingId 0)) nineReferrals).any
      (fun t => t.buckets.length = 2) = true := by
    decide +kernel
  obtain ⟨t, reachable, two⟩ := exists_reachable splits
  exact ⟨t, of_decide_eq_true two, wellFormed_of_reachable _ t reachable⟩

end RoutingTable

end MainlineDht.Rust
