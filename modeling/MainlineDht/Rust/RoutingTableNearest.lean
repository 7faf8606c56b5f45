import MainlineDht.NodeId.Distance
import MainlineDht.Rust.RoutingTableFind
import MainlineDht.Rust.RoutingTableLearning
import MainlineDht.Sequence.Blocks

/-!
# How near the nodes are that a lookup in the Rust routing table returns

The walk of `find` goes by the distance of bucket indices.  Seen from the
target, the buckets above its own are all nearer than those below, and among
those above, the order depends on the bits of the target.
-/

namespace MainlineDht.Rust

open Buckets Intervals NodeId Sequence Transition

/-- The first id is closer to the target, by distances as big-endian numbers. -/
def Closer (target first second : NodeId) : Prop :=
  bigEndian (distance first target) < bigEndian (distance second target)

instance (target first second : NodeId) : Decidable (Closer target first second) :=
  inferInstanceAs (Decidable (_ < _))

namespace RoutingTable

/-- No stored node that the result leaves out is closer to the target than a
node of the result. -/
def ReturnsNearest (t : RoutingTable) (target : NodeId) (result : FixedVec NodeContactInfo) :
    Prop :=
  ∀ entry ∈ t.storedEntries, entry.node ∉ result.items →
    ∀ node ∈ result.items, ¬ Closer target entry.node.id node.id

instance (t : RoutingTable) (target : NodeId) (result : FixedVec NodeContactInfo) :
    Decidable (t.ReturnsNearest target result) :=
  inferInstanceAs (Decidable (∀ _ ∈ _, _))

/-- For how many nodes there is room when a lookup that starts at one bucket
comes to another. -/
def room (t : RoutingTable) (start bucketIndex : Nat) : Nat :=
  bucketSize - ahead t.itemsAt (outward start (t.buckets.length - 1) 0) bucketIndex

/-- The entries of a bucket that fit. -/
def fitting (t : RoutingTable) (start bucketIndex : Nat) : List RoutingEntry :=
  (t.itemsAt bucketIndex).take (t.room start bucketIndex)

/-- The entries of a bucket that do not. -/
def leftOver (t : RoutingTable) (start bucketIndex : Nat) : List RoutingEntry :=
  (t.itemsAt bucketIndex).drop (t.room start bucketIndex)

/-- The order of the walk does no harm: while a bucket below the start gives
nodes, none above has any left over.  A bucket above leaves over none to those
further up unless the target is on its side of the reference id.  In a bucket
that gives some, these are not further away than the others. -/
structure TakesNearest (t : RoutingTable) (target : NodeId) (start : Nat) : Prop where
  below (i j : Nat) : i < start → start < j → t.fitting start i ≠ [] → t.leftOver start j = []
  above (i j : Nat) (bucket : Bucket) : start < i → i < j → t.buckets[i]? = some bucket →
    t.fitting start i ≠ [] → t.leftOver start j ≠ [] →
    target.bits[bucket.bounds.start]? ≠ t.referenceId.bits[bucket.bounds.start]?
  within (i : Nat) : ∀ entry ∈ t.fitting start i, ∀ other ∈ t.leftOver start i,
    ¬ Closer target other.node.id entry.node.id

variable {t : RoutingTable} {target : NodeId} {start i j : Nat} {a b : RoutingEntry}

/-! ## Buckets by index -/

theorem exists_bucket_of_mem (member : a ∈ t.itemsAt i) :
    ∃ bucket, t.buckets[i]? = some bucket ∧ a ∈ bucket.entries.items := by
  cases found : t.buckets[i]? with
  | none =>
      rw [itemsAt, found] at member
      cases member
  | some bucket =>
      rw [itemsAt, found] at member
      exact ⟨bucket, rfl, member⟩

theorem flatMap_itemsAt : (List.range t.buckets.length).flatMap t.itemsAt = t.storedEntries := by
  unfold storedEntries entriesOf itemsAt
  induction t.buckets with
  | nil => rfl
  | cons bucket buckets ih =>
      rw [List.length_cons, List.range_succ_eq_map, List.flatMap_cons, List.flatMap_map,
        List.flatMap_cons]
      exact congrArg _ ih

/-- The walk visits every entry once. -/
theorem visited_perm (inside : start < t.buckets.length) :
    (t.visited start).Perm t.storedEntries := by
  have walk := outward_perm_range (show start ≤ t.buckets.length - 1 by omega)
  rw [show t.buckets.length - 1 + 1 = t.buckets.length by omega] at walk
  rw [visited, ← flatMap_itemsAt]
  exact walk.flatMap_right _

/-- An earlier bucket stops before a later one starts. -/
theorem Sound.stop_le_start (sound : t.Sound) {bucket other : Bucket} (less : i < j)
    (found : t.buckets[i]? = some bucket) (otherFound : t.buckets[j]? = some other) :
    bucket.bounds.stop ≤ other.bounds.start := by
  obtain ⟨inside, rfl⟩ := List.getElem?_eq_some_iff.mp found
  obtain ⟨otherInside, rfl⟩ := List.getElem?_eq_some_iff.mp otherFound
  have ordered := List.pairwise_map.mp sound.consecutive.pairwise
  exact List.pairwise_iff_getElem.mp ordered i j inside otherInside less

/-- An entry shares a prefix within the bounds of its bucket with the reference id. -/
theorem Sound.prefix_within (sound : t.Sound) {bucket : Bucket}
    (found : t.buckets[i]? = some bucket) (member : a ∈ t.itemsAt i) :
    bucket.bounds.start ≤ prefixLength t.referenceId a.node.id ∧
      prefixLength t.referenceId a.node.id < bucket.bounds.stop := by
  obtain ⟨holder, isHolder, inHolder⟩ := exists_bucket_of_mem member
  rw [found] at isHolder
  cases isHolder
  have inBounds := (sound.bucket bucket (List.mem_of_getElem? found)).inBounds a inHolder
  rwa [Falls, Range.contains_iff, commonPrefixLength_eq] at inBounds

/-- Entries of earlier buckets share less with the reference id. -/
theorem Sound.prefix_lt (sound : t.Sound) (less : i < j) (member : a ∈ t.itemsAt i)
    (otherMember : b ∈ t.itemsAt j) :
    prefixLength t.referenceId a.node.id < prefixLength t.referenceId b.node.id := by
  obtain ⟨bucket, found, _⟩ := exists_bucket_of_mem member
  obtain ⟨other, otherFound, _⟩ := exists_bucket_of_mem otherMember
  calc prefixLength t.referenceId a.node.id < bucket.bounds.stop :=
        (sound.prefix_within found member).2
    _ ≤ other.bounds.start := sound.stop_le_start less found otherFound
    _ ≤ prefixLength t.referenceId b.node.id := (sound.prefix_within otherFound otherMember).1

/-- A bucket with another one above covers one prefix length. -/
theorem Sound.single (sound : t.Sound) {bucket other : Bucket} (less : i < j)
    (found : t.buckets[i]? = some bucket) (otherFound : t.buckets[j]? = some other) :
    bucket.bounds.stop = bucket.bounds.start + 1 := by
  have upTo := sound.stop_le_start less found otherFound
  have isRange := List.mem_map_of_mem (f := Bucket.bounds) (List.mem_of_getElem? otherFound)
  have within := sound.consecutive.within isRange
  apply (sound.bucket bucket (List.mem_of_getElem? found)).width.resolve_right
  omega

theorem Sound.start_eq_prefixLength (sound : t.Sound) {bucket : Bucket} (less : i < j)
    (found : t.buckets[i]? = some bucket) (member : a ∈ t.itemsAt i)
    (otherMember : b ∈ t.itemsAt j) :
    bucket.bounds.start = prefixLength t.referenceId a.node.id := by
  obtain ⟨other, otherFound, _⟩ := exists_bucket_of_mem otherMember
  have single := sound.single less found otherFound
  have within := sound.prefix_within found member
  omega

/-! ## What the walk gives and what it leaves over -/

theorem mem_visits (inside : start < t.buckets.length) (member : a ∈ t.itemsAt i) :
    i ∈ outward start (t.buckets.length - 1) 0 := by
  obtain ⟨bucket, found, _⟩ := exists_bucket_of_mem member
  obtain ⟨small, _⟩ := List.getElem?_eq_some_iff.mp found
  rw [mem_outward (by omega)]
  omega

/-- What the walk gathers is what fits of the buckets. -/
theorem mem_take_visited (inside : start < t.buckets.length) :
    a ∈ (t.visited start).take bucketSize ↔ ∃ i, a ∈ t.fitting start i := by
  have walks := @nodup_outward start (t.buckets.length - 1) 0 (by omega)
  rw [visited, mem_take_flatMap walks]
  constructor
  · rintro ⟨i, _, given⟩
    exact ⟨i, given⟩
  · rintro ⟨i, given⟩
    exact ⟨i, mem_visits inside (List.mem_of_mem_take given), given⟩

theorem mem_drop_visited (inside : start < t.buckets.length) :
    b ∈ (t.visited start).drop bucketSize ↔ ∃ j, b ∈ t.leftOver start j := by
  have walks := @nodup_outward start (t.buckets.length - 1) 0 (by omega)
  rw [visited, mem_drop_flatMap walks]
  constructor
  · rintro ⟨j, _, rest⟩
    exact ⟨j, rest⟩
  · rintro ⟨j, rest⟩
    exact ⟨j, mem_visits inside (List.mem_of_mem_drop rest), rest⟩

/-- A bucket that leaves some entries over leaves no room for those further out. -/
theorem fitting_eq_nil (inside : start < t.buckets.length) (further : FurtherOut start i j)
    (left : t.leftOver start j ≠ []) : t.fitting start i = [] := by
  by_contra gives
  obtain ⟨a, given⟩ := List.exists_mem_of_ne_nil _ gives
  obtain ⟨b, rest⟩ := List.exists_mem_of_ne_nil _ left
  have room := List.length_pos_of_mem given
  have full := List.length_pos_of_mem rest
  have differ : j ≠ i := by
    unfold FurtherOut at further
    omega
  have fewer := @ahead_add_le _ _ _ t.itemsAt _ _ _ (fun i j => FurtherOut start j i)
    (@pairwise_outward start (t.buckets.length - 1) 0 (by omega))
    (mem_visits inside (List.mem_of_mem_drop rest)) (mem_visits inside (List.mem_of_mem_take given))
    differ further
  rw [fitting, List.length_take, RoutingTable.room] at room
  rw [leftOver, List.length_drop, RoutingTable.room] at full
  omega

/-- The lookup's law in terms of the buckets: nothing left over by one is closer
than what another one gives. -/
theorem Sound.returnsNearest_iff (sound : t.Sound) (inside : start < t.buckets.length)
    {result : FixedVec NodeContactInfo}
    (holds : result.Holds (((t.visited start).take bucketSize).map RoutingEntry.node)) :
    t.ReturnsNearest target result ↔
      ∀ i j, ∀ a ∈ t.fitting start i, ∀ b ∈ t.leftOver start j,
        ¬ Closer target b.node.id a.node.id := by
  have perm := visited_perm inside
  have distinct : (idsOf (t.visited start)).Nodup := (perm.map _).nodup_iff.mpr sound.distinct
  rw [← List.take_append_drop bucketSize (t.visited start), idsOf_append] at distinct
  rw [ReturnsNearest, holds.items_eq]
  constructor
  · intro nearest i j a given b rest
    have dropped := (mem_drop_visited inside).mpr ⟨j, rest⟩
    apply nearest b (perm.mem_iff.mp (List.mem_of_mem_drop dropped)) _ a.node
      (List.mem_map_of_mem ((mem_take_visited inside).mpr ⟨i, given⟩))
    intro returned
    obtain ⟨c, taken, same⟩ := List.mem_map.mp returned
    apply List.disjoint_of_nodup_append distinct (mem_idsOf.mpr ⟨c, taken, rfl⟩)
    exact mem_idsOf.mpr ⟨b, dropped, by rw [same]⟩
  · intro nearest b stored missing node returned
    obtain ⟨a, taken, rfl⟩ := List.mem_map.mp returned
    obtain ⟨i, given⟩ := (mem_take_visited inside).mp taken
    have visited := perm.mem_iff.mpr stored
    rw [← List.take_append_drop bucketSize (t.visited start), List.mem_append] at visited
    have dropped := visited.resolve_left fun taken => missing (List.mem_map_of_mem taken)
    obtain ⟨j, rest⟩ := (mem_drop_visited inside).mp dropped
    exact nearest i j a given b rest

/-! ## Which buckets are nearer -/

/-- Of two buckets, the side of the target at the first one's prefix decides. -/
theorem Sound.closer_iff (sound : t.Sound) (less : i < j) (member : a ∈ t.itemsAt i)
    (otherMember : b ∈ t.itemsAt j) :
    (Closer target a.node.id b.node.id ↔
        target.bits[prefixLength t.referenceId a.node.id]? ≠
          t.referenceId.bits[prefixLength t.referenceId a.node.id]?) ∧
      (Closer target b.node.id a.node.id ↔
        target.bits[prefixLength t.referenceId a.node.id]? =
          t.referenceId.bits[prefixLength t.referenceId a.node.id]?) :=
  xorNumber_lt_iff_of_prefixLength_lt (sound.prefix_lt less member otherMember) target

variable {before after : List Bucket} {bucket : Bucket}

theorem Located.getElem? {prefixLen : Nat} (located : t.Located prefixLen before bucket after) :
    t.buckets[before.length]? = some bucket := by
  rw [located.buckets_eq, List.getElem?_append_right (Nat.le_refl _), Nat.sub_self,
    List.getElem?_cons_zero]

/-- Entries below the target's bucket share as much with the target as with the
reference id. -/
theorem Sound.below_agrees (sound : t.Sound)
    (located : t.Located (prefixLength t.referenceId target) before bucket after)
    (less : i < before.length) (member : a ∈ t.itemsAt i) :
    target.bits[prefixLength t.referenceId a.node.id]? =
      t.referenceId.bits[prefixLength t.referenceId a.node.id]? := by
  obtain ⟨lower, found, _⟩ := exists_bucket_of_mem member
  have shorter : prefixLength t.referenceId a.node.id < prefixLength t.referenceId target :=
    calc prefixLength t.referenceId a.node.id < lower.bounds.stop :=
          (sound.prefix_within found member).2
      _ ≤ bucket.bounds.start := sound.stop_le_start less found located.getElem?
      _ ≤ prefixLength t.referenceId target := (Range.contains_iff.mp located.inside).1
  have small := Nat.lt_of_lt_of_le shorter (prefixLength_le t.referenceId target)
  exact ((lt_prefixLength_iff shorter.le small).mp shorter).symm

/-- In the target's bucket, if there is one above it, the target parts from the
reference id where the entries do. -/
theorem Sound.own_parts (sound : t.Sound)
    (located : t.Located (prefixLength t.referenceId target) before bucket after)
    (different : target ≠ t.referenceId) (member : a ∈ t.itemsAt before.length)
    (above : before.length < j) (otherMember : b ∈ t.itemsAt j) :
    target.bits[prefixLength t.referenceId a.node.id]? ≠
      t.referenceId.bits[prefixLength t.referenceId a.node.id]? := by
  obtain ⟨other, otherFound, _⟩ := exists_bucket_of_mem otherMember
  have single := sound.single above located.getElem? otherFound
  have start_eq := sound.start_eq_prefixLength above located.getElem? member otherMember
  have inside := Range.contains_iff.mp located.inside
  have same : prefixLength t.referenceId a.node.id = prefixLength t.referenceId target := by
    omega
  have small : prefixLength t.referenceId target < 160 := by
    rw [← commonPrefixLength_eq, commonPrefixLength_lt_iff]
    exact different
  rw [same]
  intro agrees
  exact Nat.lt_irrefl _ ((lt_prefixLength_iff (le_refl _) small).mpr agrees.symm)

theorem Sound.nearest_iff_takesNearest (sound : t.Sound)
    (located : t.Located (prefixLength t.referenceId target) before bucket after)
    (different : target ≠ t.referenceId) :
    (∀ i j, ∀ a ∈ t.fitting before.length i, ∀ b ∈ t.leftOver before.length j,
        ¬ Closer target b.node.id a.node.id) ↔ t.TakesNearest target before.length := by
  have inside := located.index_lt
  constructor
  · intro nearest
    refine ⟨?_, ?_, fun i => nearest i i⟩
    · intro i j low high gives
      by_contra leaves
      obtain ⟨a, given⟩ := List.exists_mem_of_ne_nil _ gives
      obtain ⟨b, rest⟩ := List.exists_mem_of_ne_nil _ leaves
      have member := List.mem_of_mem_take given
      apply nearest i j a given b rest
      rw [(sound.closer_iff (low.trans high) member (List.mem_of_mem_drop rest)).2]
      exact sound.below_agrees located low member
    · intro i j bucket above higher found gives leaves
      obtain ⟨a, given⟩ := List.exists_mem_of_ne_nil _ gives
      obtain ⟨b, rest⟩ := List.exists_mem_of_ne_nil _ leaves
      have member := List.mem_of_mem_take given
      have otherMember := List.mem_of_mem_drop rest
      rw [sound.start_eq_prefixLength higher found member otherMember]
      exact mt (sound.closer_iff higher member otherMember).2.mpr (nearest i j a given b rest)
  · rintro ⟨below, above, within⟩ i j a given b rest closer
    have gives := List.ne_nil_of_mem given
    have leaves := List.ne_nil_of_mem rest
    have member := List.mem_of_mem_take given
    have otherMember := List.mem_of_mem_drop rest
    have notFurther : ¬ FurtherOut before.length i j :=
      fun further => gives (fitting_eq_nil inside further leaves)
    unfold FurtherOut at notFurther
    rcases Nat.lt_trichotomy i j with less | rfl | greater
    · -- the entry left over is in a bucket above
      have agrees := (sound.closer_iff less member otherMember).2.mp closer
      rcases Nat.lt_trichotomy i before.length with low | rfl | high
      · exact leaves (below i j low (by omega) gives)
      · exact sound.own_parts located different member less otherMember agrees
      · obtain ⟨bucket, found, _⟩ := exists_bucket_of_mem member
        have parts := above i j bucket high less found gives leaves
        rw [sound.start_eq_prefixLength less found member otherMember] at parts
        exact parts agrees
    · exact within i a given b rest closer
    · -- it is in a bucket below, on whose side the target is not
      have low : j < before.length := by omega
      have parts := (sound.closer_iff greater otherMember member).1.mp closer
      exact parts (sound.below_agrees located low otherMember)

/-- In every reachable table: a lookup of an id that is not stored returns nodes,
and no other stored node is closer exactly if the walk takes the nearest. -/
theorem returnsNearest_iff_takesNearest (referenceId : NodeId) (t : RoutingTable)
    (reachable : Reachable step (new referenceId) t) (target : NodeId)
    (different : target ≠ referenceId) (unknown : ¬ t.Stores target) :
    ∃ bucket start result,
      t.findBucket (commonPrefixLength referenceId target) = some (bucket, start) ∧
      t.find target = some (.closest result) ∧
      (t.ReturnsNearest target result ↔ t.TakesNearest target start) := by
  obtain ⟨sound, rfl⟩ := sound_of_reachable reachable
  obtain ⟨before, bucket, after, located⟩ := sound.exists_located different
  have isBucket := located.isBucket
  have inside := located.index_lt
  rcases sound.find_located located with ⟨entry, member, same, _⟩ | ⟨_, result, finds, holds⟩
  · exact absurd (mem_idsOf.mpr ⟨entry, List.mem_flatMap.mpr ⟨bucket, isBucket, member⟩, same⟩)
      unknown
  · refine ⟨bucket, before.length, result, located.findBucket, finds, ?_⟩
    rw [sound.returnsNearest_iff inside holds]
    rw [commonPrefixLength_eq] at located
    exact sound.nearest_iff_takesNearest located different

/-- The full bucket above the start gives seven nodes and leaves over the one
that is furthest away. -/
theorem returnsNearest_iff_takesNearest_split :
    ∃ t result, Reachable step (new (leadingId 0)) t ∧ (t.leftOver 0 1).length = 1 ∧
      t.find (leadingId 192) = some (.closest result) ∧
      t.ReturnsNearest (leadingId 192) result := by
  have splits : (perform step (new (leadingId 0)) nineReferrals).any
      (fun t => ¬ t.Stores (leadingId 192) ∧ t.buckets.length = 2 ∧ (t.leftOver 0 1).length = 1 ∧
        (∀ i < 2, ∀ entry ∈ t.fitting 0 i, ∀ other ∈ t.leftOver 0 i,
          ¬ Closer (leadingId 192) other.node.id entry.node.id) ∧
        (t.findBucket (commonPrefixLength (leadingId 0) (leadingId 192))).all
          fun found => found.2 = 0) = true := by
    decide +kernel
  obtain ⟨t, reachable, checked⟩ := exists_reachable splits
  obtain ⟨unknown, two, one, nearer, located⟩ := of_decide_eq_true checked
  obtain ⟨bucket, start, result, found, finds, law⟩ :=
    returnsNearest_iff_takesNearest (leadingId 0) t reachable (leadingId 192) (by decide) unknown
  rw [found] at located
  obtain rfl : start = 0 := of_decide_eq_true located
  have inRange {i : Nat} {entry : RoutingEntry} (member : entry ∈ t.itemsAt i) : i < 2 := by
    obtain ⟨bucket, isBucket, _⟩ := exists_bucket_of_mem member
    obtain ⟨small, _⟩ := List.getElem?_eq_some_iff.mp isBucket
    omega
  refine ⟨t, result, reachable, one, finds, law.mpr ⟨?_, ?_, ?_⟩⟩
  · intro i j below
    exact absurd below (Nat.not_lt_zero i)
  · -- no bucket is above the upper of the two
    intro i j bucket above higher _ _ leaves
    obtain ⟨other, rest⟩ := List.exists_mem_of_ne_nil _ leaves
    have upper := inRange (List.mem_of_mem_drop rest)
    omega
  · intro i entry given
    exact nearer i (inRange (List.mem_of_mem_take given)) entry given

/-- The node of the bucket below is returned, two of the bucket above are not,
which all are closer. -/
theorem not_returnsNearest :
    ∃ t result, Reachable step (new (leadingId 0)) t ∧ ¬ t.Stores (leadingId 96) ∧
      t.find (leadingId 96) = some (.closest result) ∧
      ¬ t.ReturnsNearest (leadingId 96) result := by
  have misses : (perform step (new (leadingId 0))
      ([1, 2, 3, 4, 5, 6, 7, 128, 64, 9].map referral)).any
      (fun t => ¬ t.Stores (leadingId 96) ∧ (t.find (leadingId 96)).any fun found =>
        found.casesOn (fun _ => false) fun result =>
          ¬ t.ReturnsNearest (leadingId 96) result) = true := by
    decide +kernel
  obtain ⟨t, reachable, checked⟩ := exists_reachable misses
  obtain ⟨unknown, wrong⟩ := of_decide_eq_true checked
  obtain ⟨found, finds, farther⟩ := (Option.any_eq_true _ _).mp wrong
  cases found with
  | exact node => cases farther
  | closest result => exact ⟨t, result, reachable, unknown, finds, of_decide_eq_true farther⟩

end RoutingTable

end MainlineDht.Rust
