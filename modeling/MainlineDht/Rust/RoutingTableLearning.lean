import MainlineDht.Rust.RoutingTableInvariant

/-!
# Which nodes the Rust routing table learns

A node is kept out rightly where eight usable entries share its prefix length.
A split that would put all eight entries and the new node into the upper half is
not made, and a node may be lost to that although its prefix length has room.
-/

namespace MainlineDht.Rust

open Intervals Transition

/-- The entry is not bad and has the prefix length. -/
def Occupies (referenceId : NodeId) (now : Instant) (prefixLen : Nat)
    (entry : RoutingEntry) : Prop :=
  entry.rating now ≠ .bad ∧ commonPrefixLength referenceId entry.node.id = prefixLen

instance (referenceId : NodeId) (now : Instant) (prefixLen : Nat) :
    DecidablePred (Occupies referenceId now prefixLen) :=
  fun _ => inferInstanceAs (Decidable (_ ∧ _))

/-- The bucket is full of usable entries, which all are above its first prefix
length, as the given one is, and not all at that one. -/
structure Bucket.Overlooks (referenceId : NodeId) (now : Instant) (prefixLen : Nat)
    (bucket : Bucket) : Prop where
  full : bucket.entries.items.length = bucketSize
  usable : ∀ entry ∈ bucket.entries.items, entry.rating now ≠ .bad
  above : bucket.bounds.start < prefixLen
  allAbove : ∀ entry ∈ bucket.entries.items,
    bucket.bounds.start < commonPrefixLength referenceId entry.node.id
  apart : ∃ entry ∈ bucket.entries.items,
    commonPrefixLength referenceId entry.node.id ≠ prefixLen

namespace RoutingTable

/-- The id is stored. -/
def Stores (t : RoutingTable) (id : NodeId) : Prop :=
  id ∈ idsOf t.storedEntries

instance (t : RoutingTable) (id : NodeId) : Decidable (t.Stores id) :=
  inferInstanceAs (Decidable (id ∈ idsOf t.storedEntries))

/-- Eight entries that are not bad have the prefix length. -/
def Crowded (t : RoutingTable) (now : Instant) (prefixLen : Nat) : Prop :=
  bucketSize ≤ (t.storedEntries.filter (Occupies t.referenceId now prefixLen ·)).length

instance (t : RoutingTable) (now : Instant) (prefixLen : Nat) :
    Decidable (t.Crowded now prefixLen) :=
  inferInstanceAs (Decidable (bucketSize ≤ _))

/-- The bucket of the prefix length overlooks it. -/
def Overlooks (t : RoutingTable) (now : Instant) (prefixLen : Nat) : Prop :=
  ∃ bucket ∈ t.buckets, bucket.bounds.contains prefixLen ∧
    bucket.Overlooks t.referenceId now prefixLen

section Located

variable {t : RoutingTable} {prefixLen : Nat} {before after news : List Bucket} {bucket : Bucket}
  {node : NodeContactInfo} {seenIn : SeenIn} {now : Instant}

theorem Sound.overlooks_iff (sound : t.Sound)
    (located : t.Located prefixLen before bucket after) :
    t.Overlooks now prefixLen ↔ bucket.Overlooks t.referenceId now prefixLen := by
  constructor
  · rintro ⟨other, member, inside, overlooks⟩
    rw [located.buckets_eq, List.mem_append, List.mem_cons] at member
    rcases member with earlier | rfl | later
    · exact absurd inside (sound.not_contains located (Or.inl earlier))
    · exact overlooks
    · exact absurd inside (sound.not_contains located (Or.inr later))
  · intro overlooks
    exact ⟨bucket, located.isBucket, located.inside, overlooks⟩

/-- The entries that count are all in the bucket of the prefix length. -/
theorem Sound.crowded_iff (sound : t.Sound)
    (located : t.Located prefixLen before bucket after) :
    t.Crowded now prefixLen ↔ bucket.entries.items.length = bucketSize ∧
      ∀ entry ∈ bucket.entries.items, Occupies t.referenceId now prefixLen entry := by
  have none {others : List Bucket} (elsewhere : ∀ other ∈ others, other ∈ before ∨ other ∈ after) :
      (entriesOf others).filter (Occupies t.referenceId now prefixLen ·) = [] := by
    rw [List.filter_eq_nil_iff]
    intro entry member occupies
    obtain ⟨other, isOther, inOther⟩ := List.mem_flatMap.mp member
    exact sound.prefix_ne located (elsewhere other isOther) inOther (of_decide_eq_true occupies).2
  have capacity := (sound.bucket bucket located.isBucket).holds.capacity
  have counted := List.length_filter_le (Occupies t.referenceId now prefixLen ·)
    bucket.entries.items
  have all := @List.length_filter_eq_length_iff _ (Occupies t.referenceId now prefixLen ·)
    bucket.entries.items
  rw [Crowded, storedEntries, located.buckets_eq, entriesOf_append, entriesOf_cons,
    List.filter_append, List.filter_append, none fun _ earlier => Or.inl earlier,
    none fun _ later => Or.inr later, List.nil_append, List.append_nil]
  simp only [decide_eq_true_iff] at all
  rw [← all]
  constructor
  · intro crowded
    exact ⟨by omega, by omega⟩
  · rintro ⟨full, same⟩
    omega

theorem idsOf_storedEntries (located : t.Located prefixLen before bucket after) :
    idsOf t.storedEntries =
      idsOf (entriesOf before) ++ (idsOf bucket.entries.items ++ idsOf (entriesOf after)) := by
  rw [storedEntries, located.buckets_eq, entriesOf_append, entriesOf_cons, idsOf_append,
    idsOf_append]

/-- A new node is stored after the update when the new buckets have it. -/
theorem stores_iff (located : t.Located prefixLen before bucket after)
    (unknown : ¬ t.Stores node.id) :
    Stores { t with buckets := before ++ news ++ after } node.id ↔
      node.id ∈ idsOf (entriesOf news) := by
  rw [Stores, idsOf_storedEntries located] at unknown
  simp only [List.mem_append, not_or] at unknown
  simp only [Stores, storedEntries, entriesOf_append, idsOf_append, List.mem_append, unknown,
    false_or, or_false]

/-- Where a bucket overlooks a node, node and entries all fall into its upper half. -/
theorem all_fall_of_overlooks {referenceId : NodeId}
    (overlooks : bucket.Overlooks referenceId now (commonPrefixLength referenceId node.id))
    (inside : bucket.bounds.contains (commonPrefixLength referenceId node.id))
    (inBounds : ∀ entry ∈ bucket.entries.items, Falls referenceId bucket.bounds entry) :
    ∀ entry ∈ freshEntry node seenIn now :: bucket.entries.items,
      Falls referenceId bucket.upperBounds entry := by
  rw [List.forall_mem_cons, Falls, Bucket.upperBounds_contains_iff, freshEntry_node]
  constructor
  · exact ⟨overlooks.above, (Range.contains_iff.mp inside).2⟩
  · intro entry member
    rw [Falls, Bucket.upperBounds_contains_iff]
    exact ⟨overlooks.allAbove entry member, (Range.contains_iff.mp (inBounds entry member)).2⟩

/-- Where node and entries fall into one half, the entries have the prefix
length of the node, or the bucket overlooks it. -/
theorem prefix_eq_of_together {referenceId : NodeId}
    (full : bucket.entries.items.length = bucketSize)
    (usable : ∀ entry ∈ bucket.entries.items, entry.rating now ≠ .bad)
    (together : ∀ entry ∈ bucket.entries.items, Falls referenceId bucket.upperBounds entry ↔
      Falls referenceId bucket.upperBounds (freshEntry node seenIn now))
    (inside : bucket.bounds.contains (commonPrefixLength referenceId node.id))
    (inBounds : ∀ entry ∈ bucket.entries.items, Falls referenceId bucket.bounds entry)
    (notOverlooked : ¬ bucket.Overlooks referenceId now (commonPrefixLength referenceId node.id)) :
    ∀ entry ∈ bucket.entries.items,
      commonPrefixLength referenceId entry.node.id = commonPrefixLength referenceId node.id := by
  intro entry member
  by_contra differs
  by_cases above : Falls referenceId bucket.upperBounds (freshEntry node seenIn now)
  · have allAbove : ∀ entry ∈ bucket.entries.items,
        bucket.bounds.start < commonPrefixLength referenceId entry.node.id := by
      intro entry member
      exact (Bucket.upperBounds_contains_iff.mp ((together entry member).mpr above)).1
    rw [Falls, Bucket.upperBounds_contains_iff, freshEntry_node] at above
    exact notOverlooked ⟨full, usable, above.1, allAbove, entry, member, differs⟩
  · -- outside the upper bounds there is only the first prefix length
    have low := mt (together entry member).mp above
    have within := Range.contains_iff.mp (inBounds entry member)
    rw [Range.contains_iff] at inside
    rw [Falls, Bucket.upperBounds_contains_iff] at low above
    rw [freshEntry_node] at above
    omega

/-- The effect on the bucket of a new node stores it, or eight usable entries
share its prefix length, unless the bucket overlooks it. -/
theorem Sound.learns_iff (sound : t.Sound)
    (located : t.Located (commonPrefixLength t.referenceId node.id) before bucket after)
    (unknown : ¬ t.Stores node.id)
    (effect : Effect t.referenceId bucket bucket.entries.items node seenIn now news) :
    (Stores { t with buckets := before ++ news ++ after } node.id ∨
        t.Crowded now (commonPrefixLength t.referenceId node.id)) ↔
      ¬ bucket.Overlooks t.referenceId now (commonPrefixLength t.referenceId node.id) := by
  rw [stores_iff located unknown, sound.crowded_iff located]
  have notHere : node.id ∉ idsOf bucket.entries.items := by
    rw [Stores, idsOf_storedEntries located] at unknown
    simp only [List.mem_append, not_or] at unknown
    exact unknown.2.1
  have inBounds := (sound.bucket bucket located.isBucket).inBounds
  cases effect with
  | refreshed items_eq same holds =>
      rw [items_eq, idsOf_append, idsOf_cons, same] at notHere
      simp at notHere
  | pushed _ room holds =>
      refine iff_of_true (Or.inl ?_) fun overlooks => Nat.ne_of_lt room overlooks.full
      simp [entriesOf, holds.items_eq]
  | replaced _ full items_eq isBad holds =>
      refine iff_of_true (Or.inl ?_) ?_
      · simp [entriesOf, holds.items_eq]
      · intro overlooks
        apply overlooks.usable _ _ isBad
        rw [items_eq]
        exact List.mem_append_right _ List.mem_cons_self
  | @split lower upper _ _ _ full usable wide holds holdsUpper perm below above =>
      refine iff_of_true (Or.inl ?_) ?_
      · have stored : node.id ∈ idsOf (lower ++ upper) := by
          apply (perm.map _).mem_iff.mpr
          rw [List.map_cons, freshEntry_node]
          exact List.mem_cons_self
        simpa [entriesOf, holds.items_eq, holdsUpper.items_eq] using stored
      · -- nine entries would be in the upper half
        intro overlooks
        have lowerEmpty : lower = [] := by
          apply List.eq_nil_iff_forall_not_mem.mpr
          intro entry member
          exact below entry member (all_fall_of_overlooks overlooks located.inside inBounds entry
            (perm.subset (List.mem_append_left _ member)))
        have tooMany := perm.length_eq
        rw [lowerEmpty, List.nil_append, List.length_cons, full] at tooMany
        exact absurd holdsUpper.capacity (by omega)
  | @discarded kept entries _ full usable together holds perm =>
      have notStored : node.id ∉ idsOf (entriesOf [⟨entries, bucket.bounds⟩]) := by
        simp only [entriesOf, List.flatMap_singleton, holds.items_eq]
        rwa [idsOf, (perm.map _).mem_iff]
      rw [or_iff_right notStored]
      constructor
      · rintro ⟨_, same⟩ overlooks
        obtain ⟨entry, member, differs⟩ := overlooks.apart
        exact differs (same entry member).2
      · intro notOverlooked
        have same := prefix_eq_of_together full usable together located.inside inBounds
          notOverlooked
        exact ⟨full, fun entry member => ⟨usable entry member, same entry member⟩⟩

end Located

/-- In every reachable table: after an update of a new node it is stored, or
eight usable entries with its prefix length were, exactly where the bucket does
not overlook it. -/
theorem learns_iff_not_overlooks (referenceId : NodeId) (t : RoutingTable)
    (reachable : Reachable step (new referenceId) t) (node : NodeContactInfo)
    (different : node.id ≠ referenceId) (unknown : ¬ t.Stores node.id) (seenIn : SeenIn)
    (now : Instant) :
    (∃ t', t.update node seenIn now = some t' ∧
        (t'.Stores node.id ∨ t.Crowded now (commonPrefixLength referenceId node.id))) ↔
      ¬ t.Overlooks now (commonPrefixLength referenceId node.id) := by
  obtain ⟨sound, rfl⟩ := sound_of_reachable reachable
  obtain ⟨before, bucket, after, news, located, updated, effect⟩ :=
    sound.update_effect different seenIn now
  rw [sound.overlooks_iff located, ← sound.learns_iff located unknown effect, updated]
  simp

/-- A ninth node splits the full bucket, one of whose entries stays in the lower
half. -/
theorem learns_iff_not_overlooks_split :
    ∃ t t' : RoutingTable, t.buckets.length = 1 ∧ t.storedEntries.length = 8 ∧
      t.update (referral 9).node .referral 0 = some t' ∧ t'.buckets.length = 2 ∧
      (t'.Stores (leadingId 9) ∨
        t.Crowded 0 (commonPrefixLength (leadingId 0) (leadingId 9))) := by
  have splits : (perform step (new (leadingId 0)) ([1, 2, 3, 4, 5, 6, 7, 128].map referral)).any
      (fun t => t.buckets.length = 1 ∧ t.storedEntries.length = 8 ∧ ¬ t.Stores (leadingId 9) ∧
        (∀ bucket ∈ t.buckets, ∃ entry ∈ bucket.entries.items,
          commonPrefixLength t.referenceId entry.node.id ≤ bucket.bounds.start) ∧
        (t.update (referral 9).node .referral 0).all fun t' => t'.buckets.length = 2) = true := by
    decide +kernel
  obtain ⟨t, reachable, checked⟩ := exists_reachable splits
  obtain ⟨one, eight, unknown, low, two⟩ := of_decide_eq_true checked
  have notOverlooked : ¬ t.Overlooks 0 (commonPrefixLength (leadingId 0) (leadingId 9)) := by
    rintro ⟨bucket, isBucket, _, overlooks⟩
    obtain ⟨entry, member, atStart⟩ := low bucket isBucket
    exact Nat.not_lt_of_le atStart (overlooks.allAbove entry member)
  obtain ⟨t', updated, learned⟩ := (learns_iff_not_overlooks (leadingId 0) t reachable
    (referral 9).node (by decide) unknown .referral 0).mpr notOverlooked
  rw [updated] at two
  exact ⟨t, t', one, eight, updated, of_decide_eq_true two, learned⟩

/-- Eight nodes above the first prefix length, one of them at the length of the
ninth, keep the ninth out. -/
theorem not_learns_ninth :
    ∃ t t', Reachable step (new (leadingId 0)) t ∧ ¬ t.Stores (leadingId 9) ∧
      t.update (referral 9).node .referral 0 = some t' ∧ ¬ t'.Stores (leadingId 9) ∧
      ¬ t.Crowded 0 (commonPrefixLength (leadingId 0) (leadingId 9)) := by
  have discards : (perform step (new (leadingId 0)) ([1, 2, 3, 4, 5, 6, 7, 8].map referral)).any
      (fun t => ¬ t.Stores (leadingId 9) ∧
        ¬ t.Crowded 0 (commonPrefixLength (leadingId 0) (leadingId 9)) ∧
        (t.update (referral 9).node .referral 0).any
          fun t' => ¬ t'.Stores (leadingId 9)) = true := by
    decide +kernel
  obtain ⟨t, reachable, checked⟩ := exists_reachable discards
  obtain ⟨unknown, uncrowded, updates⟩ := of_decide_eq_true checked
  obtain ⟨t', updated, lost⟩ := (Option.any_eq_true _ _).mp updates
  exact ⟨t, t', reachable, unknown, updated, of_decide_eq_true lost, uncrowded⟩

end RoutingTable

end MainlineDht.Rust
