import MainlineDht.Rust.RoutingTableAnswers
import Mathlib.Data.Finset.Dedup

/-!
# What a discarded update of the Rust routing table changes

When a split is reverted, the drained entries do not come back in the order they
had.  A lookup that takes the whole bucket or one entry of it cannot tell, one
that is full after some of its entries can.
-/

namespace MainlineDht.Rust

open Buckets Intervals Sequence Transition

/-- The same entries come first as before, unless entries were drained and the
first of them are at least two, but not all. -/
theorem Bucket.take_restored_iff {bucket : Bucket} (distinct : bucket.entries.items.Nodup)
    (full : bucket.entries.items.length = bucketSize) {prefixLen n : Nat} :
    (∀ entry, entry ∈ (bucket.restored prefixLen).take n ↔
        entry ∈ bucket.entries.items.take n) ↔
      (bucket.bounds.start < prefixLen → ¬ (2 ≤ n ∧ n < bucketSize)) := by
  by_cases above : bucket.bounds.start < prefixLen
  · rw [Bucket.restored, if_pos above, take_frontRemovals_iff distinct, full]
    omega
  · rw [Bucket.restored, if_neg above]
    exact iff_of_true (fun entry => Iff.rfl) fun drains => absurd drains above

/-- The answers are of the same kind and have the same contacts. -/
def NodeMatch.Same : NodeMatch → NodeMatch → Prop
  | .exact node, .exact other => node = other
  | .closest result, .closest other => result.items.toFinset = other.items.toFinset
  | .exact _, .closest _ => False
  | .closest _, .exact _ => False

instance (answer other : NodeMatch) : Decidable (answer.Same other) :=
  match answer, other with
  | .exact node, .exact other => inferInstanceAs (Decidable (node = other))
  | .closest result, .closest other =>
      inferInstanceAs (Decidable (result.items.toFinset = other.items.toFinset))
  | .exact _, .closest _ => inferInstanceAs (Decidable False)
  | .closest _, .exact _ => inferInstanceAs (Decidable False)

namespace RoutingTable

/-! ## Reordered tables -/

/-- `t'` has the buckets of `t`, with the entries of one of them in another order. -/
structure Reordered (t t' : RoutingTable) (bucketIndex : Nat) : Prop where
  reference : t'.referenceId = t.referenceId
  bounds : t'.buckets.map Bucket.bounds = t.buckets.map Bucket.bounds
  others (i : Nat) : i ≠ bucketIndex → t'.itemsAt i = t.itemsAt i
  perm : (t'.itemsAt bucketIndex).Perm (t.itemsAt bucketIndex)

section Reordered

variable {t t' : RoutingTable} {bucketIndex start i : Nat} {target : NodeId} {prefixLen : Nat}
  {before after : List Bucket} {bucket : Bucket}

/-- Putting back the entries of a bucket in another order. -/
theorem Located.reordered (located : t.Located prefixLen before bucket after)
    {entries : FixedVec RoutingEntry} {items : List RoutingEntry} (holds : entries.Holds items)
    (perm : items.Perm bucket.entries.items) :
    t.Reordered (t.setBucket before.length ⟨entries, bucket.bounds⟩) before.length ∧
      (t.setBucket before.length ⟨entries, bucket.bounds⟩).itemsAt before.length = items := by
  have own : (t.setBucket before.length ⟨entries, bucket.bounds⟩).itemsAt before.length =
      items := by
    rw [located.setBucket, RoutingTable.itemsAt, List.append_assoc,
      List.getElem?_append_right (Nat.le_refl _), Nat.sub_self, List.singleton_append,
      List.getElem?_cons_zero, Option.elim_some, holds.items_eq]
  refine ⟨⟨rfl, ?_, ?_, ?_⟩, own⟩
  · rw [located.setBucket, located.buckets_eq]
    simp only [List.map_append, List.map_cons, List.append_assoc, List.singleton_append]
  · intro i other
    rw [RoutingTable.itemsAt, RoutingTable.itemsAt, RoutingTable.setBucket,
      List.getElem?_set_ne other.symm]
  · rwa [own, located.itemsAt]

theorem findBucket_index (t : RoutingTable) (prefixLen : Nat) :
    (t.findBucket prefixLen).map Prod.snd =
      (t.buckets.map Bucket.bounds).findIdx? (·.contains prefixLen) := by
  rw [List.findIdx?_map, List.findIdx?_eq_fst_find?_zipIdx]
  rfl

theorem Reordered.itemsAt_perm (reordered : t.Reordered t' bucketIndex) (i : Nat) :
    (t'.itemsAt i).Perm (t.itemsAt i) := by
  by_cases own : i = bucketIndex
  · rw [own]
    exact reordered.perm
  · rw [reordered.others i own]

theorem Reordered.length_buckets (reordered : t.Reordered t' bucketIndex) :
    t'.buckets.length = t.buckets.length := by
  have lengths := congrArg List.length reordered.bounds
  rwa [List.length_map, List.length_map] at lengths

theorem Reordered.storedEntries_perm (reordered : t.Reordered t' bucketIndex) :
    t'.storedEntries.Perm t.storedEntries := by
  rw [← flatMap_itemsAt, ← flatMap_itemsAt, reordered.length_buckets]
  exact List.Perm.flatMap_left _ fun i _ => reordered.itemsAt_perm i

theorem Reordered.stores_iff (reordered : t.Reordered t' bucketIndex) {id : NodeId} :
    t'.Stores id ↔ t.Stores id :=
  (reordered.storedEntries_perm.map _).mem_iff

theorem Reordered.room_eq (reordered : t.Reordered t' bucketIndex) :
    t'.room start i = t.room start i := by
  rw [room, room, reordered.length_buckets,
    ahead_congr fun other => (reordered.itemsAt_perm other).length_eq]

theorem Reordered.fitting_eq (reordered : t.Reordered t' bucketIndex) (other : i ≠ bucketIndex) :
    t'.fitting start i = t.fitting start i := by
  rw [fitting, fitting, reordered.room_eq, reordered.others i other]

/-- A lookup of an id that is not stored gathers what fits of each bucket. -/
theorem Sound.find_absent (sound : t.Sound) (different : target ≠ t.referenceId)
    (absent : ¬ t.Stores target) :
    ∃ bucket start result,
      t.findBucket (commonPrefixLength t.referenceId target) = some (bucket, start) ∧
      start < t.buckets.length ∧ t.find target = some (.closest result) ∧
      ∀ node, node ∈ result.items ↔ ∃ i, ∃ entry ∈ t.fitting start i, entry.node = node := by
  obtain ⟨before, bucket, after, located⟩ := sound.exists_located different
  have inside := located.index_lt
  rcases sound.find_located located with
    ⟨entry, member, same, _⟩ | ⟨_, result, finds, holds⟩
  · exact absurd ((sound.stores_iff_inBucket located).mpr ⟨entry, member, same⟩) absent
  · refine ⟨bucket, before.length, result, located.findBucket, inside, finds, ?_⟩
    intro node
    rw [holds.items_eq, List.mem_map]
    constructor
    · rintro ⟨entry, taken, same⟩
      rcases (mem_take_visited inside).mp taken with ⟨i, fits⟩
      exact ⟨i, entry, fits, same⟩
    · rintro ⟨i, entry, fits, same⟩
      exact ⟨entry, (mem_take_visited inside).mpr ⟨i, fits⟩, same⟩

theorem mem_storedEntries {entry : RoutingEntry} (member : entry ∈ t.itemsAt i) :
    entry ∈ t.storedEntries := by
  rcases exists_bucket_of_mem member with ⟨bucket, found, inBucket⟩
  exact List.mem_flatMap.mpr ⟨bucket, List.mem_of_getElem? found, inBucket⟩

/-- Entries with one id are the same entry of the same bucket. -/
theorem Sound.entry_eq (sound : t.Sound) {j : Nat} {entry other : RoutingEntry}
    (member : entry ∈ t.itemsAt i) (otherMember : other ∈ t.itemsAt j)
    (same : entry.node.id = other.node.id) : entry = other ∧ i = j := by
  constructor
  · exact sound.eq_of_id_eq (mem_storedEntries member) (mem_storedEntries otherMember) same
  · rcases Nat.lt_trichotomy i j with less | equal | greater
    · have shorter := sound.prefix_lt less member otherMember
      rw [same] at shorter
      exact absurd shorter (Nat.lt_irrefl _)
    · exact equal
    · have shorter := sound.prefix_lt greater otherMember member
      rw [same] at shorter
      exact absurd shorter (Nat.lt_irrefl _)

/-- A stored id is found in either table. -/
theorem Reordered.sameAnswer_of_stores (reordered : t.Reordered t' bucketIndex) (sound : t.Sound)
    (sound' : t'.Sound) (different : target ≠ t.referenceId) (stored : t.Stores target) :
    Option.Rel NodeMatch.Same (t.find target) (t'.find target) := by
  have different' : target ≠ t'.referenceId := by
    rwa [reordered.reference]
  rcases sound.find_answers different with ⟨entry, member, isTarget, finds⟩ | ⟨absent, _⟩
  · rcases sound'.find_answers different' with
      ⟨entry', member', isTarget', finds'⟩ | ⟨absent', _⟩
    · have old := reordered.storedEntries_perm.mem_iff.mp member'
      have same := sound.eq_of_id_eq member old (isTarget.trans isTarget'.symm)
      rw [finds, finds', same]
      exact .some rfl
    · exact absurd (reordered.stores_iff.mpr stored) absent'
  · exact absurd stored absent

/-- For any other id the answers are the same if the same entries of the reordered
bucket fit, and only then. -/
theorem Reordered.sameAnswer_iff (reordered : t.Reordered t' bucketIndex) (sound : t.Sound)
    (sound' : t'.Sound) (different : target ≠ t.referenceId) (absent : ¬ t.Stores target)
    (found : t.findBucket (commonPrefixLength t.referenceId target) = some (bucket, start)) :
    Option.Rel NodeMatch.Same (t.find target) (t'.find target) ↔
      ∀ entry, entry ∈ t'.fitting start bucketIndex ↔ entry ∈ t.fitting start bucketIndex := by
  have different' : target ≠ t'.referenceId := by
    rwa [reordered.reference]
  rcases sound.find_absent different absent with
    ⟨_, index, result, located, inside, finds, gathered⟩
  rcases sound'.find_absent different' (mt reordered.stores_iff.mp absent) with
    ⟨_, index', result', located', _, finds', gathered'⟩
  rw [found, Option.some_inj, Prod.mk.injEq] at located
  obtain rfl := located.2
  -- the walk starts at the same index, since that depends on the bounds alone
  obtain rfl : index' = start := by
    have indices := t'.findBucket_index (commonPrefixLength t.referenceId target)
    rw [reordered.bounds, ← findBucket_index, found] at indices
    rw [reordered.reference] at located'
    rw [located'] at indices
    exact Option.some.inj indices
  rw [finds, finds', Option.rel_some_some, NodeMatch.Same, List.toFinset.ext_iff]
  constructor
  · intro same entry
    constructor
    · intro fits
      have member := (reordered.itemsAt_perm bucketIndex).mem_iff.mp (List.mem_of_mem_take fits)
      have returned := (same entry.node).mpr ((gathered' _).mpr ⟨bucketIndex, entry, fits, rfl⟩)
      rcases (gathered _).mp returned with ⟨i, other, otherFits, sameNode⟩
      have sameId := congrArg NodeContactInfo.id sameNode.symm
      rcases sound.entry_eq member (List.mem_of_mem_take otherFits) sameId with ⟨rfl, rfl⟩
      exact otherFits
    · intro fits
      have member := List.mem_of_mem_take fits
      have returned := (same entry.node).mp ((gathered _).mpr ⟨bucketIndex, entry, fits, rfl⟩)
      rcases (gathered' _).mp returned with ⟨i, other, otherFits, sameNode⟩
      have old := (reordered.itemsAt_perm i).mem_iff.mp (List.mem_of_mem_take otherFits)
      have sameId := congrArg NodeContactInfo.id sameNode.symm
      rcases sound.entry_eq member old sameId with ⟨rfl, rfl⟩
      exact otherFits
  · intro same node
    rw [gathered, gathered']
    apply exists_congr
    intro i
    by_cases own : i = bucketIndex
    · simp only [own, same]
    · rw [reordered.fitting_eq own]

end Reordered

/-! ## What a discarding update leaves -/

section Discard

variable {t t' : RoutingTable} {node : NodeContactInfo} {seenIn : SeenIn} {now : Instant}

/-- An update that does not store its new node leaves all buckets as they are but
for the order of the entries in the one of the node, which is full. -/
theorem Sound.discard (sound : t.Sound) (different : node.id ≠ t.referenceId)
    (unknown : ¬ t.Stores node.id) (updated : t.update node seenIn now = some t')
    (discarded : ¬ t'.Stores node.id) :
    ∃ before bucket after,
      t.Located (commonPrefixLength t.referenceId node.id) before bucket after ∧
      bucket.entries.items.length = bucketSize ∧ t.Reordered t' before.length ∧
      t'.itemsAt before.length =
        bucket.restored (commonPrefixLength t.referenceId node.id) := by
  obtain ⟨before, bucket, after, news, located, result, effect⟩ :=
    sound.update_effect different seenIn now
  have becomes := Option.some.inj (result.symm.trans updated)
  rw [← becomes, stores_iff located unknown] at discarded
  have isBucket := sound.bucket bucket located.isBucket
  cases effect with
  | refreshed items_eq same =>
      apply absurd _ unknown
      rw [sound.stores_iff_inBucket located, items_eq]
      exact ⟨_, List.mem_append_right _ List.mem_cons_self, same⟩
  | pushed _ _ holds => simp [entriesOf, holds.items_eq] at discarded
  | replaced _ _ _ _ holds => simp [entriesOf, holds.items_eq] at discarded
  | split _ _ _ _ holds holdsUpper perm =>
      apply absurd _ discarded
      have stored := (perm.map fun entry => entry.node.id).mem_iff.mpr
        (List.mem_map_of_mem List.mem_cons_self)
      simpa [entriesOf, holds.items_eq, holdsUpper.items_eq] using stored
  | discarded new full usable together =>
      rw [located.update_full rfl isBucket.holds new full usable] at updated
      split at updated
      · have splits : ∀ entry ∈ bucket.entries.items,
            Falls t.referenceId bucket.upperBounds entry ↔
              bucket.bounds.start < commonPrefixLength t.referenceId node.id := by
          intro entry member
          rw [together entry member, Falls, freshEntry_node, located.upper_contains_iff]
        obtain ⟨restored, holdsRestored, reverts⟩ :=
          located.splitBucket_reverts isBucket.holds full splits (freshEntry node seenIn now)
        obtain rfl := Option.some.inj (updated.symm.trans reverts)
        have reordered := located.reordered holdsRestored (bucket.restored_perm _)
        exact ⟨before, bucket, after, located, full, reordered⟩
      · rename_i narrow
        have inside := Range.contains_iff.mp located.inside
        obtain rfl := Option.some.inj updated
        have notAbove : ¬ bucket.bounds.start < commonPrefixLength t.referenceId node.id := by
          omega
        refine ⟨before, bucket, after, located, full, ⟨rfl, rfl, fun _ _ => rfl, .refl _⟩, ?_⟩
        rw [Bucket.restored, if_neg notAbove, located.itemsAt]

end Discard

/-! ## When a discarded update goes unnoticed -/

section Discarded

variable {t t' : RoutingTable} {prefixLen : Nat} {before after : List Bucket} {bucket : Bucket}
  {node : NodeContactInfo} {seenIn : SeenIn} {now : Instant}

theorem Sound.nodup_items (sound : t.Sound) (located : t.Located prefixLen before bucket after) :
    bucket.entries.items.Nodup := by
  have distinct := sound.distinct
  rw [idsOf_storedEntries located] at distinct
  exact distinct.of_append_right.of_append_left.of_map _

/-- The node goes to the bucket at the index, but not into its lower half.  This
is where the bucket is drained before the update discards the node. -/
def Drains (t : RoutingTable) (node : NodeContactInfo) (bucketIndex : Nat) : Prop :=
  ∃ bucket, t.findBucket (commonPrefixLength t.referenceId node.id) = some (bucket, bucketIndex) ∧
    bucket.bounds.start < commonPrefixLength t.referenceId node.id

/-- A lookup of the id comes to the bucket at the index with room for at least
two nodes, but not for eight. -/
def CutsShort (t : RoutingTable) (target : NodeId) (bucketIndex : Nat) : Prop :=
  ∃ bucket start, t.findBucket (commonPrefixLength t.referenceId target) = some (bucket, start) ∧
    2 ≤ t.room start bucketIndex ∧ t.room start bucketIndex < bucketSize

/-- In every reachable table: an update that discards its new node changes no
answer, exactly if it drains nothing or no lookup cuts the drained bucket short. -/
theorem discard_unnoticed_iff (referenceId : NodeId) (t : RoutingTable)
    (reachable : Reachable step (new referenceId) t) (node : NodeContactInfo)
    (different : node.id ≠ referenceId) (unknown : ¬ t.Stores node.id) (seenIn : SeenIn)
    (now : Instant) (t' : RoutingTable) (updated : t.update node seenIn now = some t')
    (discarded : ¬ t'.Stores node.id) :
    (∀ target, target ≠ referenceId →
        Option.Rel NodeMatch.Same (t.find target) (t'.find target)) ↔
      ∀ bucketIndex, t.Drains node bucketIndex → ∀ target, target ≠ referenceId →
        ¬ t.Stores target → ¬ t.CutsShort target bucketIndex := by
  obtain ⟨sound, rfl⟩ := sound_of_reachable reachable
  have sound' := (sound.update updated).1
  rcases sound.discard different unknown updated discarded with
    ⟨before, bucket, after, located, full, reordered, own⟩
  have sameEntries (start : Nat) :
      (∀ entry, entry ∈ t'.fitting start before.length ↔
          entry ∈ t.fitting start before.length) ↔
        (bucket.bounds.start < commonPrefixLength t.referenceId node.id →
          ¬ (2 ≤ t.room start before.length ∧ t.room start before.length < bucketSize)) := by
    rw [fitting, fitting, own, reordered.room_eq, located.itemsAt]
    exact Bucket.take_restored_iff (sound.nodup_items located) full
  constructor
  · rintro same bucketIndex ⟨holder, found, above⟩ target isOther absent
      ⟨own, start, targetFound, cut⟩
    rw [located.findBucket, Option.some_inj, Prod.mk.injEq] at found
    obtain ⟨rfl, rfl⟩ := found
    have fits := (reordered.sameAnswer_iff sound sound' isOther absent targetFound).mp
      (same target isOther)
    exact (sameEntries start).mp fits above cut
  · intro uncut target isOther
    by_cases stored : t.Stores target
    · exact reordered.sameAnswer_of_stores sound sound' isOther stored
    · rcases sound.find_absent isOther stored with ⟨own, start, _, targetFound, _⟩
      rw [reordered.sameAnswer_iff sound sound' isOther stored targetFound, sameEntries]
      intro above cut
      exact uncut before.length ⟨bucket, located.findBucket, above⟩ target isOther stored
        ⟨own, start, targetFound, cut⟩

/-- A ninth node with the first prefix length of the only bucket drains nothing. -/
theorem discard_unnoticed_iff_low :
    ∃ t t', Reachable step (new (leadingId 0)) t ∧
      t.update (referral 136).node .referral 0 = some t' ∧ ¬ t'.Stores (leadingId 136) ∧
      ∀ target, target ≠ leadingId 0 →
        Option.Rel NodeMatch.Same (t.find target) (t'.find target) := by
  have discards : (perform step (new (leadingId 0))
      ([128, 129, 130, 131, 132, 133, 134, 135].map referral)).any
      (fun t => ¬ t.Stores (leadingId 136) ∧
        (t.findBucket (commonPrefixLength t.referenceId (leadingId 136))).all (fun found =>
          ¬ found.1.bounds.start < commonPrefixLength t.referenceId (leadingId 136)) ∧
        (t.update (referral 136).node .referral 0).any fun t' =>
          ¬ t'.Stores (leadingId 136)) = true := by
    decide +kernel
  obtain ⟨t, reachable, checked⟩ := exists_reachable discards
  obtain ⟨unknown, low, updates⟩ := of_decide_eq_true checked
  obtain ⟨t', updated, notStored⟩ := (Option.any_eq_true _ _).mp updates
  have discarded := of_decide_eq_true notStored
  refine ⟨t, t', reachable, updated, discarded, ?_⟩
  apply (discard_unnoticed_iff (leadingId 0) t reachable (referral 136).node (by decide) unknown
    .referral 0 t' updated discarded).mpr
  rintro bucketIndex ⟨bucket, found, above⟩
  have notAbove := Option.all_eq_true _ _ |>.mp low _ found
  exact absurd above (of_decide_eq_true notAbove)

/-- The tenth node is discarded, and its bucket drained for that.  A lookup that
starts at the other bucket has room for seven of its eight entries, and these
are no longer the same seven. -/
theorem not_discard_unnoticed :
    ∃ t t', Reachable step (new (leadingId 0)) t ∧ ¬ t.Stores (leadingId 10) ∧
      t.update (referral 10).node .referral 0 = some t' ∧ ¬ t'.Stores (leadingId 10) ∧
      ¬ Option.Rel NodeMatch.Same (t.find (leadingId 129)) (t'.find (leadingId 129)) := by
  have differs : (perform step (new (leadingId 0))
      ([128, 1, 2, 3, 4, 5, 6, 7, 9].map referral)).any
      (fun t => ¬ t.Stores (leadingId 10) ∧
        (t.update (referral 10).node .referral 0).any fun t' =>
          ¬ t'.Stores (leadingId 10) ∧
          (t.find (leadingId 129)).any fun found =>
            (t'.find (leadingId 129)).any fun other => ¬ found.Same other) = true := by
    decide +kernel
  obtain ⟨t, reachable, checked⟩ := exists_reachable differs
  obtain ⟨unknown, updates⟩ := of_decide_eq_true checked
  obtain ⟨t', updated, discards⟩ := (Option.any_eq_true _ _).mp updates
  obtain ⟨discarded, answers⟩ := of_decide_eq_true discards
  obtain ⟨found, finds, others⟩ := (Option.any_eq_true _ _).mp answers
  obtain ⟨other, findsOther, differ⟩ := (Option.any_eq_true _ _).mp others
  refine ⟨t, t', reachable, unknown, updated, discarded, ?_⟩
  rw [finds, findsOther, Option.rel_some_some]
  exact of_decide_eq_true differ

end Discarded

end RoutingTable

end MainlineDht.Rust
