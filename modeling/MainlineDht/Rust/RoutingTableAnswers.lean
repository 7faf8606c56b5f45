import MainlineDht.Rust.RoutingTableFrame
import MainlineDht.Rust.RoutingTableNearest

/-!
# What a lookup in the Rust routing table answers

An id is found exactly if it is stored.  For any other, the walk over the
buckets gathers as many nodes as there are, up to eight, and those of the
bucket it starts at come first.
-/

namespace MainlineDht.Rust

open Buckets Transition

namespace RoutingTable

/-- The result of a lookup that found no exact node: nodes of the table, none
twice, as many as fit or as there are, with the whole bucket of the target. -/
structure Fills (t : RoutingTable) (target : NodeId) (result : FixedVec NodeContactInfo) :
    Prop where
  holds : result.Holds result.items
  length_eq : result.items.length = min bucketSize t.storedEntries.length
  distinct : (result.items.map NodeContactInfo.id).Nodup
  stored : ∀ node ∈ result.items, ∃ entry ∈ t.storedEntries, entry.node = node
  ownBucket : ∃ bucket ∈ t.buckets,
    bucket.bounds.contains (commonPrefixLength t.referenceId target) ∧
      ∀ entry ∈ bucket.entries.items, entry.node ∈ result.items

variable {t : RoutingTable} {target : NodeId} {before after : List Bucket} {bucket : Bucket}

/-- What a lookup gathers on its walk fills the result. -/
theorem Sound.fills (sound : t.Sound)
    (located : t.Located (commonPrefixLength t.referenceId target) before bucket after)
    {result : FixedVec NodeContactInfo}
    (holds : result.Holds (((t.visited before.length).take bucketSize).map RoutingEntry.node)) :
    t.Fills target result := by
  have inside := located.index_lt
  have perm := visited_perm inside
  have isBucket := located.isBucket
  constructor
  · rwa [holds.items_eq]
  · rw [holds.items_eq, List.length_map, List.length_take, perm.length_eq]
  · have distinct : (idsOf (t.visited before.length)).Nodup :=
      (perm.map _).nodup_iff.mpr sound.distinct
    rw [holds.items_eq, List.map_map]
    exact distinct.sublist ((List.take_sublist _ _).map _)
  · intro node member
    rw [holds.items_eq] at member
    obtain ⟨entry, taken, rfl⟩ := List.mem_map.mp member
    exact ⟨entry, perm.mem_iff.mp (List.mem_of_mem_take taken), rfl⟩
  · refine ⟨bucket, isBucket, located.inside, ?_⟩
    intro entry member
    -- the walk starts with the own bucket, which has no more than eight entries
    have first : entry ∈ (t.visited before.length).take bucketSize := by
      rw [visited, outward_zero, List.flatMap_cons, located.itemsAt, List.take_append,
        List.take_of_length_le (sound.bucket bucket isBucket).holds.capacity]
      exact List.mem_append_left _ member
    rw [holds.items_eq]
    exact List.mem_map_of_mem first

/-- A lookup finds the stored entry with the id, or fills the result. -/
theorem Sound.find_answers (sound : t.Sound) (different : target ≠ t.referenceId) :
    (∃ entry ∈ t.storedEntries, entry.node.id = target ∧
        t.find target = some (.exact entry.node)) ∨
      (¬ t.Stores target ∧
        ∃ result, t.find target = some (.closest result) ∧ t.Fills target result) := by
  obtain ⟨before, bucket, after, located⟩ := sound.exists_located different
  have stores_iff := sound.stores_iff_inBucket located
  rcases sound.find_located located with
    ⟨entry, member, same, finds⟩ | ⟨missing, result, finds, holds⟩
  · have isBucket := located.isBucket
    exact Or.inl ⟨entry, List.mem_flatMap.mpr ⟨bucket, isBucket, member⟩, same, finds⟩
  · refine Or.inr ⟨?_, result, finds, sound.fills located holds⟩
    rw [stores_iff]
    rintro ⟨entry, member, same⟩
    exact missing entry member same

/-- Two stored entries with one id are the same. -/
theorem Sound.eq_of_id_eq (sound : t.Sound) {entry other : RoutingEntry}
    (member : entry ∈ t.storedEntries) (otherMember : other ∈ t.storedEntries)
    (same : entry.node.id = other.node.id) : entry = other :=
  List.inj_on_of_nodup_map sound.distinct member otherMember same

/-- In every reachable table, a lookup of an id other than the reference id
returns its contact exactly if it is stored, and otherwise a filled result.
Both answers mean that no push met a full result, since that one panics. -/
theorem find_exact_or_fills (referenceId : NodeId) (t : RoutingTable)
    (reachable : Reachable step (new referenceId) t) (target : NodeId)
    (different : target ≠ referenceId) :
    (∀ node, t.find target = some (.exact node) ↔
        ∃ entry ∈ t.storedEntries, entry.node.id = target ∧ entry.node = node) ∧
      (¬ t.Stores target →
        ∃ result, t.find target = some (.closest result) ∧ t.Fills target result) := by
  obtain ⟨sound, rfl⟩ := sound_of_reachable reachable
  rcases sound.find_answers different with
    ⟨entry, member, same, finds⟩ | ⟨absent, result, finds, fills⟩
  · have isStored : t.Stores target := mem_idsOf.mpr ⟨entry, member, same⟩
    refine ⟨fun node => ?_, fun absent => absurd isStored absent⟩
    rw [finds]
    constructor
    · intro exact_eq
      cases exact_eq
      exact ⟨entry, member, same, rfl⟩
    · rintro ⟨other, otherMember, otherSame, rfl⟩
      rw [sound.eq_of_id_eq member otherMember (same.trans otherSame.symm)]
  · refine ⟨fun node => iff_of_false ?_ ?_, fun _ => ⟨result, finds, fills⟩⟩
    · rw [finds]
      intro exact_eq
      cases exact_eq
    · rintro ⟨entry, member, same, _⟩
      exact absent (mem_idsOf.mpr ⟨entry, member, same⟩)

/-- In a split table with nine entries, one is found, and eight are returned for
an id that is not stored. -/
theorem find_exact_or_fills_split :
    ∃ t result, Reachable step (new (leadingId 0)) t ∧
      t.find (leadingId 128) = some (.exact (referral 128).node) ∧
      t.find (leadingId 96) = some (.closest result) ∧ result.items.length = bucketSize := by
  have splits : (perform step (new (leadingId 0)) nineReferrals).any
      (fun t => ¬ t.Stores (leadingId 96) ∧ t.storedEntries.length = 9 ∧
        ∃ entry ∈ t.storedEntries, entry.node.id = leadingId 128 ∧
          entry.node = (referral 128).node) = true := by
    decide +kernel
  obtain ⟨t, reachable, checked⟩ := exists_reachable splits
  obtain ⟨absent, nine, stored⟩ := of_decide_eq_true checked
  have exact_iff := (find_exact_or_fills _ t reachable (leadingId 128) (by decide)).1
  obtain ⟨result, finds, fills⟩ :=
    (find_exact_or_fills _ t reachable (leadingId 96) (by decide)).2 absent
  refine ⟨t, result, reachable, (exact_iff _).mpr stored, finds, ?_⟩
  rw [fills.length_eq, nine]
  rfl

end RoutingTable

end MainlineDht.Rust
