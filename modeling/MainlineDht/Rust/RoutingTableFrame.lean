import MainlineDht.Rust.RoutingTableLearning

/-!
# What an update of the Rust routing table leaves as it is

The stored entries before and after an update are compared as multisets, that
is, up to the order of the slots and buckets.  An update has one of four
outcomes, and none of them costs an entry that is still usable.
-/

namespace MainlineDht.Rust

open Intervals Transition

/-- The entry `stamped` is `entry` after it was seen: the clock reading is in
the field for the kind of message, and the rest is as it was. -/
structure RoutingEntry.Stamped (seenIn : SeenIn) (now : Instant)
    (entry stamped : RoutingEntry) : Prop where
  node : stamped.node = entry.node
  lastQuery : stamped.lastQuery = if seenIn = .query then some now else entry.lastQuery
  lastResponse : stamped.lastResponse =
    if seenIn = .response then some now else entry.lastResponse

theorem RoutingEntry.update_stamped (entry : RoutingEntry) (seenIn : SeenIn) (now : Instant) :
    entry.Stamped seenIn now (entry.update seenIn now) := by
  cases seenIn <;> exact ⟨rfl, rfl, rfl⟩

namespace RoutingTable

/-- The ways in which an update can end. -/
inductive Outcome
  | refreshed
  | added
  | replaced
  | unchanged
  deriving DecidableEq

/-- The entries stored in `t` become those stored in `t'` with the outcome. -/
def Fares (t t' : RoutingTable) (node : NodeContactInfo) (seenIn : SeenIn) (now : Instant) :
    Outcome → Prop
  | .refreshed => ∃ entry stamped others, entry.node.id = node.id ∧
      entry.Stamped seenIn now stamped ∧ t.storedEntries.Perm (entry :: others) ∧
      t'.storedEntries.Perm (stamped :: others)
  | .added => ¬ t.Stores node.id ∧
      t'.storedEntries.Perm (freshEntry node seenIn now :: t.storedEntries)
  | .replaced => ¬ t.Stores node.id ∧ ∃ bucket ∈ t.buckets, ∃ badEntry ∈ bucket.entries.items,
      bucket.bounds.contains (commonPrefixLength t.referenceId node.id) ∧
      bucket.entries.isFull ∧ badEntry.rating now = .bad ∧
      ∃ others, t.storedEntries.Perm (badEntry :: others) ∧
        t'.storedEntries.Perm (freshEntry node seenIn now :: others)
  | .unchanged => ¬ t.Stores node.id ∧ t'.storedEntries.Perm t.storedEntries

/-- Every entry that is not bad is still there, once, and as it was unless it is
the one that was seen. -/
def KeepsUsable (t t' : RoutingTable) (node : NodeContactInfo) (seenIn : SeenIn)
    (now : Instant) : Prop :=
  ∀ entry ∈ t.storedEntries, entry.rating now ≠ .bad →
    ∃ kept, t'.storedEntries.filter (fun other => other.node.id = entry.node.id) = [kept] ∧
      (kept = entry ∨ (entry.node.id = node.id ∧ entry.Stamped seenIn now kept))

variable {t t' : RoutingTable} {node : NodeContactInfo} {seenIn : SeenIn} {now : Instant}
  {outcome other : Outcome}

/-! ## At most one outcome -/

theorem stores_of_perm {entry : RoutingEntry} {others : List RoutingEntry}
    (perm : t.storedEntries.Perm (entry :: others)) : t.Stores entry.node.id := by
  rw [Stores, mem_idsOf]
  exact ⟨entry, perm.mem_iff.mpr List.mem_cons_self, rfl⟩

theorem Fares.stores_iff (fares : Fares t t' node seenIn now outcome) :
    t.Stores node.id ↔ outcome = .refreshed := by
  cases outcome with
  | refreshed =>
      obtain ⟨entry, stamped, others, same, _, perm, _⟩ := fares
      rw [← same]
      exact iff_of_true (stores_of_perm perm) rfl
  | added | replaced | unchanged => exact iff_of_false fares.1 (by decide)

/-- Only an added entry makes the table grow. -/
theorem Fares.length_eq (fares : Fares t t' node seenIn now outcome) :
    t'.storedEntries.length = t.storedEntries.length + if outcome = .added then 1 else 0 := by
  cases outcome with
  | refreshed =>
      obtain ⟨entry, stamped, others, _, _, perm, perm'⟩ := fares
      simpa using perm'.length_eq.trans perm.length_eq.symm
  | added => simpa using fares.2.length_eq
  | replaced =>
      obtain ⟨_, bucket, _, badEntry, _, _, _, _, others, perm, perm'⟩ := fares
      simpa using perm'.length_eq.trans perm.length_eq.symm
  | unchanged => simpa using fares.2.length_eq

/-- A new node is stored unless nothing changes. -/
theorem Fares.learned_iff (fares : Fares t t' node seenIn now outcome)
    (unknown : ¬ t.Stores node.id) : t'.Stores node.id ↔ outcome ≠ .unchanged := by
  have freshStored {others : List RoutingEntry}
      (perm : t'.storedEntries.Perm (freshEntry node seenIn now :: others)) :
      t'.Stores node.id := by
    have stored := stores_of_perm perm
    rwa [freshEntry_node] at stored
  cases outcome with
  | refreshed => exact absurd (fares.stores_iff.mpr rfl) unknown
  | added => exact iff_of_true (freshStored fares.2) (by decide)
  | replaced =>
      obtain ⟨_, bucket, _, badEntry, _, _, _, _, others, _, perm'⟩ := fares
      exact iff_of_true (freshStored perm') (by decide)
  | unchanged =>
      have sameIds := fares.2.map fun entry => entry.node.id
      exact iff_of_false (mt sameIds.mem_iff.mp unknown) (not_not.mpr rfl)

/-- No two outcomes have the same entries before and after. -/
theorem Fares.unique (fares : Fares t t' node seenIn now outcome)
    (otherFares : Fares t t' node seenIn now other) : outcome = other := by
  by_cases known : t.Stores node.id
  · rw [fares.stores_iff.mp known, otherFares.stores_iff.mp known]
  · have notRefreshed := mt fares.stores_iff.mpr known
    have otherNotRefreshed := mt otherFares.stores_iff.mpr known
    have grows := fares.length_eq.symm.trans otherFares.length_eq
    have learns := (fares.learned_iff known).symm.trans (otherFares.learned_iff known)
    cases outcome <;> cases other <;> simp_all

/-! ## At least one -/

variable {before after news : List Bucket} {bucket : Bucket}

/-- An id is stored exactly if it is in the bucket of its prefix length. -/
theorem Sound.stores_iff_inBucket (sound : t.Sound) {id : NodeId}
    (located : t.Located (commonPrefixLength t.referenceId id) before bucket after) :
    t.Stores id ↔ ∃ entry ∈ bucket.entries.items, entry.node.id = id := by
  rw [Stores, mem_idsOf]
  constructor
  · rintro ⟨entry, member, same⟩
    obtain ⟨holder, isBucket, inHolder⟩ := List.mem_flatMap.mp member
    rw [located.buckets_eq, List.mem_append, List.mem_cons] at isBucket
    have elsewhere : ¬ (holder ∈ before ∨ holder ∈ after) :=
      fun elsewhere => sound.prefix_ne located elsewhere inHolder (by rw [same])
    rcases isBucket with earlier | rfl | later
    · exact absurd (Or.inl earlier) elsewhere
    · exact ⟨entry, inHolder, same⟩
    · exact absurd (Or.inr later) elsewhere
  · rintro ⟨entry, member, same⟩
    have isBucket := located.isBucket
    exact ⟨entry, List.mem_flatMap.mpr ⟨bucket, isBucket, member⟩, same⟩

theorem entriesOf_around (before middle after : List Bucket) :
    (entriesOf (before ++ middle ++ after)).Perm
      (entriesOf middle ++ (entriesOf before ++ entriesOf after)) := by
  rw [entriesOf_append, entriesOf_append, ← List.append_assoc]
  exact List.perm_append_comm.append_right _

/-- The entries of the table are those of the bucket and others. -/
theorem Located.storedEntries_perm {prefixLen : Nat}
    (located : t.Located prefixLen before bucket after) :
    t.storedEntries.Perm (bucket.entries.items ++ (entriesOf before ++ entriesOf after)) := by
  have perm := entriesOf_around before [bucket] after
  rw [List.append_assoc, List.singleton_append, ← located.buckets_eq] at perm
  simpa only [storedEntries, entriesOf, List.flatMap_singleton] using perm

/-- Each effect on the bucket of the node is an outcome for the table. -/
theorem Sound.exists_fares (sound : t.Sound)
    (located : t.Located (commonPrefixLength t.referenceId node.id) before bucket after)
    (effect : Effect t.referenceId bucket bucket.entries.items node seenIn now news) :
    ∃ outcome, Fares t { t with buckets := before ++ news ++ after } node seenIn now outcome := by
  have isBucket := located.isBucket
  have holds := (sound.bucket bucket isBucket).holds
  have perm := located.storedEntries_perm
  have perm' := entriesOf_around before news after
  have new (unknown : ∀ entry ∈ bucket.entries.items, entry.node.id ≠ node.id) :
      ¬ t.Stores node.id := by
    rw [sound.stores_iff_inBucket located]
    rintro ⟨entry, member, same⟩
    exact unknown entry member same
  cases effect with
  | @refreshed earlier later entry entries items_eq same holdsNew =>
      simp only [entriesOf, List.flatMap_singleton, holdsNew.items_eq] at perm'
      rw [items_eq] at perm
      exact ⟨.refreshed, entry, entry.update seenIn now, _, same, entry.update_stamped seenIn now,
        perm.trans (List.perm_middle.append_right _),
        perm'.trans (List.perm_middle.append_right _)⟩
  | @pushed entries unknown room holdsNew =>
      simp only [entriesOf, List.flatMap_singleton, holdsNew.items_eq] at perm'
      refine ⟨.added, new unknown, ?_⟩
      exact (perm'.trans ((List.perm_append_singleton _ _).append_right _)).trans
        (perm.symm.cons _)
  | @replaced earlier later badEntry entries unknown full items_eq isBad holdsNew =>
      simp only [entriesOf, List.flatMap_singleton, holdsNew.items_eq] at perm'
      have member : badEntry ∈ bucket.entries.items := by
        rw [items_eq]
        exact List.mem_append_right _ List.mem_cons_self
      rw [items_eq] at perm
      exact ⟨.replaced, new unknown, bucket, isBucket, badEntry, member, located.inside,
        holds.isFull_iff.mpr full, isBad, _, perm.trans (List.perm_middle.append_right _),
        perm'.trans (List.perm_middle.append_right _)⟩
  | @split lower upper entries upperEntries unknown _ _ _ holdsLower holdsUpper halves _ _ =>
      simp only [entriesOf_cons, holdsLower.items_eq, holdsUpper.items_eq] at perm'
      refine ⟨.added, new unknown, perm'.trans ?_⟩
      calc lower ++ (upper ++ entriesOf []) ++ (entriesOf before ++ entriesOf after)
          = lower ++ upper ++ (entriesOf before ++ entriesOf after) := by simp [entriesOf]
        _ |>.Perm (freshEntry node seenIn now :: bucket.entries.items ++
            (entriesOf before ++ entriesOf after)) := halves.append_right _
        _ |>.Perm (freshEntry node seenIn now :: t.storedEntries) := perm.symm.cons _
  | @discarded kept entries unknown _ _ _ holdsNew same =>
      simp only [entriesOf, List.flatMap_singleton, holdsNew.items_eq] at perm'
      exact ⟨.unchanged, new unknown, (perm'.trans (same.append_right _)).trans perm.symm⟩

/-! ## Usable entries -/

/-- The entry with a key in a list without a key twice. -/
theorem filter_key_eq_singleton {A K : Type} [DecidableEq K] {key : A → K} {items : List A}
    {item : A} (distinct : (items.map key).Nodup) (member : item ∈ items) :
    items.filter (fun other => key other = key item) = [item] := by
  obtain ⟨earlier, later, rfl⟩ := List.append_of_mem member
  rw [List.map_append, List.map_cons, List.nodup_middle, List.nodup_cons, List.mem_append,
    List.mem_map, List.mem_map] at distinct
  have none {others : List A} (subset : others ⊆ earlier ++ later) :
      others.filter (fun other => key other = key item) = [] := by
    rw [List.filter_eq_nil_iff]
    intro other isOther same
    apply distinct.1
    have sameKey := of_decide_eq_true same
    exact (List.mem_append.mp (subset isOther)).imp (fun here => ⟨other, here, sameKey⟩)
      fun here => ⟨other, here, sameKey⟩
  rw [List.filter_append, List.filter_cons_of_pos (by simp),
    none (List.subset_append_left _ _), none (List.subset_append_right _ _), List.nil_append]

theorem Fares.keepsUsable (fares : Fares t t' node seenIn now outcome)
    (distinct : (idsOf t'.storedEntries).Nodup) : KeepsUsable t t' node seenIn now := by
  intro entry stored usable
  obtain ⟨kept, member, same, cause⟩ : ∃ kept ∈ t'.storedEntries,
      kept.node.id = entry.node.id ∧
        (kept = entry ∨ (entry.node.id = node.id ∧ entry.Stamped seenIn now kept)) := by
    cases outcome with
    | refreshed =>
        obtain ⟨seen, stamped, others, isNode, isStamped, perm, perm'⟩ := fares
        rcases List.mem_cons.mp (perm.mem_iff.mp stored) with rfl | isOther
        · exact ⟨stamped, perm'.mem_iff.mpr List.mem_cons_self, by rw [isStamped.node],
            Or.inr ⟨isNode, isStamped⟩⟩
        · exact ⟨entry, perm'.mem_iff.mpr (List.mem_cons_of_mem _ isOther), rfl, Or.inl rfl⟩
    | added =>
        exact ⟨entry, fares.2.mem_iff.mpr (List.mem_cons_of_mem _ stored), rfl, Or.inl rfl⟩
    | replaced =>
        obtain ⟨_, bucket, _, badEntry, _, _, _, isBad, others, perm, perm'⟩ := fares
        rcases List.mem_cons.mp (perm.mem_iff.mp stored) with rfl | isOther
        · exact absurd isBad usable
        · exact ⟨entry, perm'.mem_iff.mpr (List.mem_cons_of_mem _ isOther), rfl, Or.inl rfl⟩
    | unchanged => exact ⟨entry, fares.2.mem_iff.mpr stored, rfl, Or.inl rfl⟩
  have alone := filter_key_eq_singleton distinct member
  rw [same] at alone
  exact ⟨kept, alone, cause⟩

/-- In every reachable table: an update of a node with another id than the
reference id has exactly one outcome, and all usable entries stay. -/
theorem exactly_one_outcome (referenceId : NodeId) (t : RoutingTable)
    (reachable : Reachable step (new referenceId) t) (node : NodeContactInfo)
    (different : node.id ≠ referenceId) (seenIn : SeenIn) (now : Instant) :
    ∃ t', t.update node seenIn now = some t' ∧
      (∃! outcome, Fares t t' node seenIn now outcome) ∧
      KeepsUsable t t' node seenIn now := by
  obtain ⟨sound, rfl⟩ := sound_of_reachable reachable
  obtain ⟨before, bucket, after, news, located, updated, effect⟩ :=
    sound.update_effect different seenIn now
  obtain ⟨outcome, fares⟩ := sound.exists_fares located effect
  refine ⟨_, updated, ⟨outcome, fares, fun other otherFares => otherFares.unique fares⟩, ?_⟩
  exact fares.keepsUsable (sound.replace located effect).distinct

/-- Nine nodes are in two halves, and a tenth responds for which the full upper
half is split again. -/
theorem exactly_one_outcome_split :
    ∃ t t' : RoutingTable, t.buckets.length = 2 ∧ t.storedEntries.length = 9 ∧
      t.update (referral 64).node .response 5 = some t' ∧ t'.buckets.length = 3 ∧
      (∃! outcome, Fares t t' (referral 64).node .response 5 outcome) ∧
      KeepsUsable t t' (referral 64).node .response 5 := by
  have splits : (perform step (new (leadingId 0)) nineReferrals).any
      (fun t => t.buckets.length = 2 ∧ t.storedEntries.length = 9 ∧
        (t.update (referral 64).node .response 5).all fun t' => t'.buckets.length = 3) = true := by
    decide +kernel
  obtain ⟨t, reachable, checked⟩ := exists_reachable splits
  obtain ⟨two, nine, three⟩ := of_decide_eq_true checked
  obtain ⟨t', updated, unique, keeps⟩ := exactly_one_outcome (leadingId 0) t reachable
    (referral 64).node (by decide) .response 5
  rw [updated] at three
  exact ⟨t, t', two, nine, updated, of_decide_eq_true three, unique, keeps⟩

end RoutingTable

end MainlineDht.Rust
