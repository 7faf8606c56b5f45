import MainlineDht.Rust.RoutingTable

/-!
# What an update of the Rust routing table does

For a table whose vectors are in order, an update that finds a bucket for its
node does not panic, and its effect is one of five.
-/

namespace MainlineDht.Rust

open Intervals

/-- The prefix length of an entry is within the bounds. -/
def Falls (referenceId : NodeId) (bounds : Range Nat) (entry : RoutingEntry) : Prop :=
  bounds.contains (commonPrefixLength referenceId entry.node.id)

/-- The bounds of a bucket without its first prefix length. -/
def Bucket.upperBounds (bucket : Bucket) : Range Nat :=
  ⟨bucket.bounds.start + 1, bucket.bounds.stop⟩

theorem Bucket.upperBounds_contains_iff {bucket : Bucket} {prefixLen : Nat} :
    bucket.upperBounds.contains prefixLen = true ↔
      bucket.bounds.start < prefixLen ∧ prefixLen < bucket.bounds.stop := by
  rw [Range.contains_iff]
  exact Iff.rfl

theorem contains_succ_iff {start prefixLen : Nat} :
    (⟨start, start + 1⟩ : Range Nat).contains prefixLen = true ↔ prefixLen = start := by
  rw [Range.contains_iff]
  dsimp only
  omega

/-- The entries of a full bucket after a split was reverted for a node with the
prefix length.  Drained entries come back in another order. -/
def Bucket.restored (bucket : Bucket) (prefixLen : Nat) : List RoutingEntry :=
  if bucket.bounds.start < prefixLen then Sequence.frontRemovals bucket.entries.items
  else bucket.entries.items

theorem Bucket.restored_perm (bucket : Bucket) (prefixLen : Nat) :
    (bucket.restored prefixLen).Perm bucket.entries.items := by
  unfold Bucket.restored
  split
  · exact Sequence.frontRemovals_perm _
  · exact List.Perm.refl _

namespace RoutingTable

/-! ## Finding the bucket -/

/-- `bucket` is the first one with the prefix length in its bounds. -/
structure Located (t : RoutingTable) (prefixLen : Nat) (before : List Bucket) (bucket : Bucket)
    (after : List Bucket) : Prop where
  buckets_eq : t.buckets = before ++ bucket :: after
  inside : bucket.bounds.contains prefixLen
  first : ∀ other ∈ before, ¬ other.bounds.contains prefixLen

variable {t : RoutingTable} {prefixLen : Nat} {before after : List Bucket} {bucket : Bucket}

theorem exists_located (covered : ∃ bucket ∈ t.buckets, bucket.bounds.contains prefixLen) :
    ∃ before bucket after, t.Located prefixLen before bucket after := by
  obtain ⟨bucket, found⟩ := Option.isSome_iff_exists.mp (List.find?_isSome.mpr covered)
  obtain ⟨inside, before, after, buckets_eq, first⟩ := List.find?_eq_some_iff_append.mp found
  refine ⟨before, bucket, after, buckets_eq, inside, ?_⟩
  intro other member
  have excluded := first other member
  rwa [Bool.not_eq_true', ← Bool.not_eq_true] at excluded

theorem Located.findBucket (located : t.Located prefixLen before bucket after) :
    t.findBucket prefixLen = some (bucket, before.length) := by
  have missing : before.zipIdx.find? (fun enumerated => enumerated.1.bounds.contains prefixLen) =
      none := by
    rw [List.find?_eq_none]
    rintro ⟨other, i⟩ member
    exact located.first other (List.fst_mem_of_mem_zipIdx member)
  rw [RoutingTable.findBucket, located.buckets_eq, List.zipIdx_append, List.find?_append, missing,
    Option.none_or, List.zipIdx_cons, Nat.zero_add]
  exact List.find?_cons_of_pos located.inside

theorem Located.isBucket (located : t.Located prefixLen before bucket after) :
    bucket ∈ t.buckets := by
  rw [located.buckets_eq]
  exact List.mem_append_right _ List.mem_cons_self

theorem Located.index_lt (located : t.Located prefixLen before bucket after) :
    before.length < t.buckets.length := by
  rw [located.buckets_eq, List.length_append, List.length_cons]
  exact Nat.lt_add_of_pos_right (Nat.succ_pos _)

theorem Located.isEmpty_eq (located : t.Located prefixLen before bucket after) :
    t.buckets.isEmpty = false :=
  List.isEmpty_eq_false_iff.mpr (List.ne_nil_of_mem located.isBucket)

theorem findBucket_eq_none
    (uncovered : ∀ bucket ∈ t.buckets, ¬ bucket.bounds.contains prefixLen) :
    t.findBucket prefixLen = none := by
  rw [findBucket, List.find?_eq_none]
  rintro ⟨bucket, i⟩ member
  exact uncovered bucket (List.fst_mem_of_mem_zipIdx member)

theorem Located.setBucket (located : t.Located prefixLen before bucket after) (changed : Bucket) :
    t.setBucket before.length changed = { t with buckets := before ++ [changed] ++ after } := by
  rw [RoutingTable.setBucket, located.buckets_eq, List.set_append_right _ _ (Nat.le_refl _),
    Nat.sub_self, List.set_cons_zero, List.append_assoc, List.singleton_append]

/-- Inserting right behind an element. -/
theorem insertIdx_behind {A : Type} (earlier later : List A) (item new : A) :
    (earlier ++ [item] ++ later).insertIdx (earlier.length + 1) new =
      earlier ++ [item, new] ++ later := by
  induction earlier with
  | nil => rfl
  | cons first earlier ih =>
      simp only [List.cons_append, List.length_cons, List.insertIdx_succ_cons, ih]

theorem Located.insertBucket (located : t.Located prefixLen before bucket after)
    (lower upper : Bucket) :
    (t.setBucket before.length lower).insertBucket (before.length + 1) upper =
      some { t with buckets := before ++ [lower, upper] ++ after } := by
  rw [located.setBucket, RoutingTable.insertBucket, if_pos, insertIdx_behind]
  rw [List.length_append, List.length_append, List.length_singleton]
  exact Nat.le_add_right _ _

/-! ## Draining -/

section Drain

variable {referenceId : NodeId} {upperBounds : Range Nat} {i : Nat}
  {entries drained : FixedVec RoutingEntry} {items out : List RoutingEntry}

theorem drainUpperNodes_done (holds : entries.Holds items) :
    drainUpperNodes referenceId upperBounds entries drained items.length =
      some (entries, drained) := by
  rw [drainUpperNodes, holds.length_eq, if_neg (not_not.mpr rfl)]

theorem drainUpperNodes_keep (holds : entries.Holds items) (inside : i < items.length)
    (keeps : ¬ Falls referenceId upperBounds items[i]) :
    drainUpperNodes referenceId upperBounds entries drained i =
      drainUpperNodes referenceId upperBounds entries drained (i + 1) := by
  have more : i ≠ entries.length := by
    rw [holds.length_eq]
    exact Nat.ne_of_lt inside
  have found := holds.index_eq inside
  rw [drainUpperNodes, if_pos more]
  split
  · rename_i missing
    rw [found] at missing
    cases missing
  · rename_i entry isEntry
    rw [found, Option.some_inj] at isEntry
    subst isEntry
    exact if_neg keeps

theorem drainUpperNodes_move (holds : entries.Holds items) (holdsOut : drained.Holds out)
    (inside : i < items.length) (room : out.length < bucketSize)
    (falls : Falls referenceId upperBounds items[i]) :
    ∃ entries' drained', entries'.Holds (Sequence.swapRemove items i) ∧
      drained'.Holds (out ++ [items[i]]) ∧
      drainUpperNodes referenceId upperBounds entries drained i =
        drainUpperNodes referenceId upperBounds entries' drained' i := by
  have more : i ≠ entries.length := by
    rw [holds.length_eq]
    exact Nat.ne_of_lt inside
  have found := holds.index_eq inside
  obtain ⟨entries', removed, holds'⟩ := holds.swapRemove inside
  obtain ⟨drained', pushed, holdsOut'⟩ := holdsOut.push room items[i]
  refine ⟨entries', drained', holds', holdsOut', ?_⟩
  rw [drainUpperNodes, if_pos more]
  split
  · rename_i missing
    rw [found] at missing
    cases missing
  · rename_i entry isEntry
    rw [found, Option.some_inj] at isEntry
    subst isEntry
    have within : upperBounds.contains (commonPrefixLength referenceId items[i].node.id) := falls
    rw [if_pos within]
    split
    · rename_i missing
      rw [removed] at missing
      cases missing
    · rename_i same
      rw [removed] at same
      cases same
      rw [pushed]

/-- The loop leaves the entries outside the upper bounds and moves the others. -/
theorem drainUpperNodes_partition (holds : entries.Holds items) (holdsOut : drained.Holds out)
    (upTo : i ≤ items.length) (fits : items.length + out.length ≤ bucketSize)
    (kept : ∀ entry ∈ items.take i, ¬ Falls referenceId upperBounds entry)
    (moved : ∀ entry ∈ out, Falls referenceId upperBounds entry) :
    ∃ entries' drained' lower upper,
      drainUpperNodes referenceId upperBounds entries drained i = some (entries', drained') ∧
      entries'.Holds lower ∧ drained'.Holds upper ∧ (lower ++ upper).Perm (items ++ out) ∧
      (∀ entry ∈ lower, ¬ Falls referenceId upperBounds entry) ∧
      ∀ entry ∈ upper, Falls referenceId upperBounds entry := by
  induction remaining : items.length - i generalizing entries drained items out i with
  | zero =>
      have done : i = items.length := by omega
      subst done
      rw [List.take_length] at kept
      exact ⟨entries, drained, items, out, drainUpperNodes_done holds, holds, holdsOut,
        List.Perm.refl _, kept, moved⟩
  | succ remaining ih =>
      have inside : i < items.length := by omega
      by_cases falls : Falls referenceId upperBounds items[i]
      · obtain ⟨entries', drained', holds', holdsOut', step⟩ :=
          drainUpperNodes_move holds holdsOut inside (by omega) falls
        have shorter : (Sequence.swapRemove items i).length = items.length - 1 :=
          Sequence.length_swapRemove items i
        have longer : (out ++ [items[i]]).length = out.length + 1 := List.length_append
        have moved' : ∀ entry ∈ out ++ [items[i]], Falls referenceId upperBounds entry := by
          intro entry member
          rcases List.mem_append.mp member with earlier | new
          · exact moved entry earlier
          · rwa [List.mem_singleton.mp new]
        have kept' : ∀ entry ∈ (Sequence.swapRemove items i).take i,
            ¬ Falls referenceId upperBounds entry := by
          rwa [Sequence.take_swapRemove items inside]
        obtain ⟨entries'', drained'', lower, upper, result, holdsLower, holdsUpper, perm, rest⟩ :=
          ih holds' holdsOut' (by omega) (by omega) kept' moved' (by omega)
        refine ⟨entries'', drained'', lower, upper, step.trans result, holdsLower, holdsUpper,
          ?_, rest⟩
        calc (lower ++ upper).Perm (Sequence.swapRemove items i ++ (out ++ [items[i]])) := perm
          _ = Sequence.swapRemove items i ++ out ++ [items[i]] := (List.append_assoc _ _ _).symm
          _ |>.Perm (items[i] :: (Sequence.swapRemove items i ++ out)) :=
            List.perm_append_singleton _ _
          _ |>.Perm (items ++ out) := (Sequence.cons_swapRemove_perm items inside).append_right out
      · rw [drainUpperNodes_keep holds inside falls]
        apply ih holds holdsOut (by omega) fits _ moved (by omega)
        intro entry member
        rw [List.take_succ_eq_append_getElem inside] at member
        rcases List.mem_append.mp member with earlier | new
        · exact kept entry earlier
        · rwa [List.mem_singleton.mp new]

/-- Entries that all stay are passed over. -/
theorem drainUpperNodes_of_none (holds : entries.Holds items) (upTo : i ≤ items.length)
    (stay : ∀ entry ∈ items, ¬ Falls referenceId upperBounds entry) :
    drainUpperNodes referenceId upperBounds entries drained i = some (entries, drained) := by
  induction remaining : items.length - i generalizing i with
  | zero =>
      have done : i = items.length := by omega
      subst done
      exact drainUpperNodes_done holds
  | succ remaining ih =>
      have inside : i < items.length := by omega
      rw [drainUpperNodes_keep holds inside (stay _ (List.getElem_mem inside))]
      exact ih inside (by omega)

/-- Entries that all go are moved in the order in which the first one is removed
again and again. -/
theorem drainUpperNodes_of_all (holds : entries.Holds items) (holdsOut : drained.Holds out)
    (fits : items.length + out.length ≤ bucketSize)
    (go : ∀ entry ∈ items, Falls referenceId upperBounds entry) :
    ∃ entries' drained', entries'.Holds [] ∧ drained'.Holds (out ++ Sequence.frontRemovals items) ∧
      drainUpperNodes referenceId upperBounds entries drained 0 = some (entries', drained') := by
  induction size : items.length generalizing entries drained items out with
  | zero =>
      obtain rfl := List.length_eq_zero_iff.mp size
      refine ⟨entries, drained, holds, ?_, drainUpperNodes_done holds⟩
      rwa [Sequence.frontRemovals, List.append_nil]
  | succ size ih =>
      have inside : 0 < items.length := by omega
      obtain ⟨entries', drained', holds', holdsOut', step⟩ :=
        drainUpperNodes_move holds holdsOut inside (by omega) (go _ (List.getElem_mem inside))
      have perm := Sequence.cons_swapRemove_perm items inside
      have shorter := Sequence.length_swapRemove items 0
      have longer : (out ++ [items[0]]).length = out.length + 1 := List.length_append
      obtain ⟨left, moved, holdsLeft, holdsMoved, drains⟩ :=
        ih holds' holdsOut' (by omega)
          (fun entry member => go entry (perm.mem_iff.mp (List.mem_cons_of_mem _ member)))
          (by omega)
      refine ⟨left, moved, holdsLeft, ?_, step.trans drains⟩
      cases items with
      | nil => cases inside
      | cons first rest =>
          rw [Sequence.frontRemovals_cons]
          rwa [List.append_assoc] at holdsMoved

end Drain

/-! ## The effects of an update -/

/-- The entry that an update makes for a new node. -/
def freshEntry (node : NodeContactInfo) (seenIn : SeenIn) (now : Instant) : RoutingEntry :=
  (RoutingEntry.new node).update seenIn now

@[simp]
theorem freshEntry_node (node : NodeContactInfo) (seenIn : SeenIn) (now : Instant) :
    (freshEntry node seenIn now).node = node := by
  rw [freshEntry, RoutingEntry.update_node, RoutingEntry.new_node]

/-- What becomes of a bucket with the given items when its node is updated. -/
inductive Effect (referenceId : NodeId) (bucket : Bucket) (items : List RoutingEntry)
    (node : NodeContactInfo) (seenIn : SeenIn) (now : Instant) : List Bucket → Prop
  | refreshed {earlier later : List RoutingEntry} {entry : RoutingEntry}
      {entries : FixedVec RoutingEntry} :
      items = earlier ++ entry :: later → entry.node.id = node.id →
      entries.Holds (earlier ++ entry.update seenIn now :: later) →
      Effect referenceId bucket items node seenIn now [⟨entries, bucket.bounds⟩]
  | pushed {entries : FixedVec RoutingEntry} :
      (∀ entry ∈ items, entry.node.id ≠ node.id) → items.length < bucketSize →
      entries.Holds (items ++ [freshEntry node seenIn now]) →
      Effect referenceId bucket items node seenIn now [⟨entries, bucket.bounds⟩]
  | replaced {earlier later : List RoutingEntry} {badEntry : RoutingEntry}
      {entries : FixedVec RoutingEntry} :
      (∀ entry ∈ items, entry.node.id ≠ node.id) → items.length = bucketSize →
      items = earlier ++ badEntry :: later → badEntry.rating now = .bad →
      entries.Holds (earlier ++ freshEntry node seenIn now :: later) →
      Effect referenceId bucket items node seenIn now [⟨entries, bucket.bounds⟩]
  | split {lower upper : List RoutingEntry} {entries upperEntries : FixedVec RoutingEntry} :
      (∀ entry ∈ items, entry.node.id ≠ node.id) → items.length = bucketSize →
      (∀ entry ∈ items, entry.rating now ≠ .bad) →
      bucket.bounds.start + 1 < bucket.bounds.stop →
      entries.Holds lower → upperEntries.Holds upper →
      (lower ++ upper).Perm (freshEntry node seenIn now :: items) →
      (∀ entry ∈ lower, ¬ Falls referenceId bucket.upperBounds entry) →
      (∀ entry ∈ upper, Falls referenceId bucket.upperBounds entry) →
      Effect referenceId bucket items node seenIn now
        [⟨entries, ⟨bucket.bounds.start, bucket.bounds.start + 1⟩⟩,
          ⟨upperEntries, bucket.upperBounds⟩]
  | discarded {kept : List RoutingEntry} {entries : FixedVec RoutingEntry} :
      (∀ entry ∈ items, entry.node.id ≠ node.id) → items.length = bucketSize →
      (∀ entry ∈ items, entry.rating now ≠ .bad) →
      (∀ entry ∈ items, Falls referenceId bucket.upperBounds entry ↔
        Falls referenceId bucket.upperBounds (freshEntry node seenIn now)) →
      entries.Holds kept → kept.Perm items →
      Effect referenceId bucket items node seenIn now [⟨entries, bucket.bounds⟩]

variable {items : List RoutingEntry} {node : NodeContactInfo} {seenIn : SeenIn} {now : Instant}

/-! ## Splitting a bucket -/

theorem Located.lower_contains_iff (located : t.Located prefixLen before bucket after) :
    (⟨bucket.bounds.start, bucket.bounds.start + 1⟩ : Range Nat).contains prefixLen = true ↔
      ¬ bucket.bounds.start < prefixLen := by
  have inside := Range.contains_iff.mp located.inside
  rw [contains_succ_iff]
  omega

theorem Located.upper_contains_iff (located : t.Located prefixLen before bucket after) :
    bucket.upperBounds.contains prefixLen = true ↔ bucket.bounds.start < prefixLen := by
  rw [Bucket.upperBounds_contains_iff]
  exact and_iff_left (Range.contains_iff.mp located.inside).2

/-- Where all entries fall into the half of the new one, a full bucket is not split. -/
theorem Located.splitBucket_reverts (located : t.Located prefixLen before bucket after)
    (holds : bucket.entries.Holds bucket.entries.items)
    (full : bucket.entries.items.length = bucketSize)
    (together : ∀ entry ∈ bucket.entries.items,
      Falls t.referenceId bucket.upperBounds entry ↔ bucket.bounds.start < prefixLen)
    (newEntry : RoutingEntry) :
    ∃ entries, entries.Holds (bucket.restored prefixLen) ∧
      t.splitBucket bucket before.length prefixLen newEntry =
        some (t.setBucket before.length ⟨entries, bucket.bounds⟩) := by
  have lower_iff := located.lower_contains_iff
  have upper_iff := located.upper_contains_iff
  rw [Bucket.upperBounds] at upper_iff
  by_cases above : bucket.bounds.start < prefixLen
  · have go : ∀ entry ∈ bucket.entries.items, Falls t.referenceId bucket.upperBounds entry :=
      fun entry member => (together entry member).mpr above
    rcases drainUpperNodes_of_all holds FixedVec.Holds.new (by simp [full]) go with
      ⟨left, moved, holdsLeft, holdsMoved, drains⟩
    have noSlot : ¬ moved.isNotFull := by
      apply holdsMoved.not_isNotFull
      rw [List.nil_append, (Sequence.frontRemovals_perm _).length_eq, full]
    rcases holdsLeft.append holdsMoved (Or.inl rfl) with ⟨entries, appended, holdsEntries⟩
    refine ⟨entries, ?_, ?_⟩
    · rwa [Bucket.restored, if_pos above]
    · rw [Bucket.upperBounds] at drains
      simp only [RoutingTable.splitBucket, drains, lower_iff, above, noSlot, appended,
        Option.bind_eq_bind, Option.bind_some, Option.pure_def, Bool.false_eq_true, not_true,
        false_and, and_false, if_false]
  · have stay : ∀ entry ∈ bucket.entries.items,
        ¬ Falls t.referenceId bucket.upperBounds entry :=
      fun entry member => mt (together entry member).mp above
    have drains := @drainUpperNodes_of_none t.referenceId bucket.upperBounds 0 _ FixedVec.new _
      holds (Nat.zero_le _) stay
    have noSlot := holds.not_isNotFull full
    rcases holds.append FixedVec.Holds.new (Or.inr rfl) with ⟨entries, appended, holdsEntries⟩
    refine ⟨entries, ?_, ?_⟩
    · rwa [Bucket.restored, if_neg above, ← List.append_nil bucket.entries.items]
    · rw [Bucket.upperBounds] at drains
      simp only [RoutingTable.splitBucket, drains, upper_iff, above, noSlot, appended,
        Option.bind_eq_bind, Option.bind_some, Option.pure_def, Bool.false_eq_true, false_and,
        and_false, if_false]

/-- The new entry goes to the lower half, the drained ones to a new bucket. -/
theorem Located.splitBucket_lower (located : t.Located prefixLen before bucket after)
    {entries drained : FixedVec RoutingEntry} {lower upper : List RoutingEntry}
    (drains : drainUpperNodes t.referenceId bucket.upperBounds bucket.entries FixedVec.new 0 =
      some (entries, drained))
    (holdsLower : entries.Holds lower) (holdsUpper : drained.Holds upper)
    (room : lower.length < bucketSize) (staysLow : ¬ bucket.bounds.start < prefixLen)
    (newEntry : RoutingEntry) :
    ∃ lowerEntries upperEntries, lowerEntries.Holds (lower ++ [newEntry]) ∧
      upperEntries.Holds upper ∧
      t.splitBucket bucket before.length prefixLen newEntry =
        some { t with buckets := before ++
          [⟨lowerEntries, ⟨bucket.bounds.start, bucket.bounds.start + 1⟩⟩,
            ⟨upperEntries, bucket.upperBounds⟩] ++ after } := by
  rcases FixedVec.Holds.new.append holdsUpper (Or.inl rfl) with ⟨copied, appended, holdsCopied⟩
  rcases holdsLower.push room newEntry with ⟨lowerEntries, pushes, holdsPushed⟩
  have hasSlot := holdsLower.isNotFull_iff.mpr room
  have lower_iff := located.lower_contains_iff
  refine ⟨lowerEntries, copied, holdsPushed, holdsCopied, ?_⟩
  rw [Bucket.upperBounds] at drains
  simp only [RoutingTable.splitBucket, drains, lower_iff, staysLow, hasSlot, Bucket.new, appended,
    pushes, Option.bind_eq_bind, Option.bind_some, not_false_iff, and_true, if_true,
    located.insertBucket, Bucket.upperBounds]

/-- The new entry goes to a new bucket together with the drained ones. -/
theorem Located.splitBucket_upper (located : t.Located prefixLen before bucket after)
    {entries drained : FixedVec RoutingEntry} {upper : List RoutingEntry}
    (drains : drainUpperNodes t.referenceId bucket.upperBounds bucket.entries FixedVec.new 0 =
      some (entries, drained))
    (holdsUpper : drained.Holds upper) (room : upper.length < bucketSize)
    (goesUp : bucket.bounds.start < prefixLen) (newEntry : RoutingEntry) :
    ∃ upperEntries, upperEntries.Holds (upper ++ [newEntry]) ∧
      t.splitBucket bucket before.length prefixLen newEntry =
        some { t with buckets := before ++
          [⟨entries, ⟨bucket.bounds.start, bucket.bounds.start + 1⟩⟩,
            ⟨upperEntries, bucket.upperBounds⟩] ++ after } := by
  rcases FixedVec.Holds.new.append holdsUpper (Or.inl rfl) with ⟨copied, appended, holdsCopied⟩
  rw [List.nil_append] at holdsCopied
  rcases holdsCopied.push room newEntry with ⟨upperEntries, pushes, holdsPushed⟩
  have hasSlot := holdsUpper.isNotFull_iff.mpr room
  have lower_iff := located.lower_contains_iff
  have upper_iff := located.upper_contains_iff
  refine ⟨upperEntries, holdsPushed, ?_⟩
  rw [Bucket.upperBounds] at drains upper_iff
  simp only [RoutingTable.splitBucket, drains, lower_iff, upper_iff, goesUp, hasSlot, Bucket.new,
    appended, pushes, Option.bind_eq_bind, Option.bind_some, not_true, and_false, and_true,
    if_false, if_true, located.insertBucket, Bucket.upperBounds]

/-- Splitting does not panic.  Either the new entry goes to its half, or its
half is full and nothing changes. -/
theorem Located.splitBucket (located : t.Located prefixLen before bucket after)
    (prefixLen_eq : prefixLen = commonPrefixLength t.referenceId node.id)
    (holds : bucket.entries.Holds items) (unknown : ∀ entry ∈ items, entry.node.id ≠ node.id)
    (full : items.length = bucketSize) (usable : ∀ entry ∈ items, entry.rating now ≠ .bad)
    (wide : bucket.bounds.start + 1 < bucket.bounds.stop) :
    ∃ news, t.splitBucket bucket before.length prefixLen (freshEntry node seenIn now) =
        some { t with buckets := before ++ news ++ after } ∧
      Effect t.referenceId bucket items node seenIn now news := by
  obtain rfl := holds.items_eq
  have falls_iff : Falls t.referenceId bucket.upperBounds (freshEntry node seenIn now) ↔
      bucket.bounds.start < prefixLen := by
    rw [Falls, freshEntry_node, ← prefixLen_eq, located.upper_contains_iff]
  have reverts (together : ∀ entry ∈ bucket.entries.items,
      Falls t.referenceId bucket.upperBounds entry ↔
        Falls t.referenceId bucket.upperBounds (freshEntry node seenIn now)) :
      ∃ news, t.splitBucket bucket before.length prefixLen (freshEntry node seenIn now) =
          some { t with buckets := before ++ news ++ after } ∧
        Effect t.referenceId bucket bucket.entries.items node seenIn now news := by
    rcases located.splitBucket_reverts holds full
        (fun entry member => (together entry member).trans falls_iff) _ with
      ⟨restored, holdsRestored, result⟩
    refine ⟨[⟨restored, bucket.bounds⟩], ?_,
      .discarded unknown full usable together holdsRestored (bucket.restored_perm _)⟩
    rw [result, located.setBucket]
  obtain ⟨entries, drained, lower, upper, drains, holdsLower, holdsUpper, perm, below, above⟩ :=
    @drainUpperNodes_partition t.referenceId bucket.upperBounds 0 _ _ _ _
      holds FixedVec.Holds.new (Nat.zero_le _) holds.capacity (by simp) (by simp)
  rw [List.append_nil] at perm
  have total : lower.length + upper.length = bucketSize := by
    rw [← List.length_append, perm.length_eq, full]
  by_cases goesUp : bucket.bounds.start < prefixLen
  · by_cases room : upper.length < bucketSize
    · rcases located.splitBucket_upper drains holdsUpper room goesUp (freshEntry node seenIn now)
        with ⟨upperEntries, holdsPushed, result⟩
      refine ⟨_, result, .split unknown full usable wide holdsLower holdsPushed ?_ below ?_⟩
      · rw [← List.append_assoc]
        exact (List.perm_append_singleton _ _).trans (perm.cons _)
      · rw [List.forall_mem_append, List.forall_mem_singleton]
        exact ⟨above, falls_iff.mpr goesUp⟩
    · have lowerEmpty : lower = [] := List.length_eq_zero_iff.mp (by omega)
      apply reverts
      intro entry member
      rw [lowerEmpty, List.nil_append] at perm
      exact iff_of_true (above entry (perm.mem_iff.mpr member)) (falls_iff.mpr goesUp)
  · by_cases room : lower.length < bucketSize
    · rcases located.splitBucket_lower drains holdsLower holdsUpper room goesUp
          (freshEntry node seenIn now) with
        ⟨lowerEntries, upperEntries, holdsPushed, holdsCopied, result⟩
      refine ⟨_, result, .split unknown full usable wide holdsPushed holdsCopied ?_ ?_ above⟩
      · rw [List.append_assoc, List.singleton_append]
        exact List.perm_middle.trans (perm.cons _)
      · rw [List.forall_mem_append, List.forall_mem_singleton]
        exact ⟨below, mt falls_iff.mp goesUp⟩
    · have upperEmpty : upper = [] := List.length_eq_zero_iff.mp (by omega)
      apply reverts
      intro entry member
      rw [upperEmpty, List.append_nil] at perm
      exact iff_of_false (below entry (perm.mem_iff.mpr member)) (mt falls_iff.mp goesUp)

/-! ## The branches of an update -/

/-- A list around one of its elements, and with that element written over. -/
theorem exists_around {A : Type} {items : List A} {i : Nat} (inside : i < items.length) (new : A) :
    ∃ earlier later, items = earlier ++ items[i] :: later ∧
      items.set i new = earlier ++ new :: later := by
  refine ⟨items.take i, items.drop (i + 1), ?_, ?_⟩
  · rw [List.getElem_cons_drop, List.take_append_drop]
  · rw [List.set_eq_take_append_cons_drop, if_pos inside]

/-- None of the items passes a test that is decided. -/
theorem findIdx?_eq_none {A : Type} {items : List A} {test : A → Prop} [DecidablePred test]
    (none : ∀ item ∈ items, ¬ test item) : items.findIdx? (fun item => test item) = .none := by
  rw [List.findIdx?_eq_none_iff]
  intro item member
  exact decide_eq_false (none item member)

/-- The first of the items that pass it. -/
theorem exists_findIdx? {A : Type} {items : List A} {test : A → Prop} [DecidablePred test]
    (some : ∃ item ∈ items, test item) :
    ∃ position, ∃ inside : position < items.length,
      items.findIdx? (fun item => test item) = .some position ∧ test items[position] := by
  cases isPosition : items.findIdx? fun item => test item with
  | none =>
      rcases some with ⟨item, member, passes⟩
      have excluded := List.findIdx?_eq_none_iff.mp isPosition item member
      exact absurd passes (of_decide_eq_false excluded)
  | some position =>
      rcases List.findIdx?_eq_some_iff_getElem.mp isPosition with ⟨inside, passes, _⟩
      exact ⟨position, inside, rfl, of_decide_eq_true passes⟩

/-- The first branch: the entry of a known node is written over. -/
theorem Located.update_known (located : t.Located prefixLen before bucket after)
    (prefixLen_eq : prefixLen = commonPrefixLength t.referenceId node.id)
    (holds : bucket.entries.Holds items) (known : ∃ entry ∈ items, entry.node.id = node.id)
    (seenIn : SeenIn) (now : Instant) :
    ∃ news, t.update node seenIn now = some { t with buckets := before ++ news ++ after } ∧
      Effect t.referenceId bucket items node seenIn now news := by
  have found := located.findBucket
  rw [prefixLen_eq] at found
  rcases exists_findIdx? known with ⟨position, inside, isPosition, same⟩
  obtain ⟨entries, writes, holdsWritten⟩ :=
    holds.indexMut inside (items[position].update seenIn now)
  obtain ⟨earlier, later, items_eq, written_eq⟩ :=
    exists_around inside (items[position].update seenIn now)
  rw [written_eq] at holdsWritten
  refine ⟨[⟨entries, bucket.bounds⟩], ?_, .refreshed items_eq same holdsWritten⟩
  simp only [RoutingTable.update, located.isEmpty_eq, found, holds.asSlice_eq, isPosition,
    holds.index_eq inside, writes, Option.bind_eq_bind, Option.bind_some, Bool.false_eq_true,
    if_false, located.setBucket, Option.pure_def]

/-- Case 1: a new node is pushed while there is room. -/
theorem Located.update_room (located : t.Located prefixLen before bucket after)
    (prefixLen_eq : prefixLen = commonPrefixLength t.referenceId node.id)
    (holds : bucket.entries.Holds items) (unknown : ∀ entry ∈ items, entry.node.id ≠ node.id)
    (room : items.length < bucketSize) (seenIn : SeenIn) (now : Instant) :
    ∃ news, t.update node seenIn now = some { t with buckets := before ++ news ++ after } ∧
      Effect t.referenceId bucket items node seenIn now news := by
  have found := located.findBucket
  rw [prefixLen_eq] at found
  have hasSlot := holds.isNotFull_iff.mpr room
  obtain ⟨entries, pushes, holdsPushed⟩ := holds.push room (freshEntry node seenIn now)
  refine ⟨[⟨entries, bucket.bounds⟩], ?_, .pushed unknown room holdsPushed⟩
  rw [freshEntry] at pushes
  simp only [RoutingTable.update, located.isEmpty_eq, found, holds.asSlice_eq,
    findIdx?_eq_none unknown, hasSlot, pushes, Option.bind_eq_bind, Option.bind_some,
    Bool.false_eq_true, if_false, if_true, located.setBucket, Option.pure_def]

/-- Case 2: it is written over a bad entry of a full bucket. -/
theorem Located.update_bad (located : t.Located prefixLen before bucket after)
    (prefixLen_eq : prefixLen = commonPrefixLength t.referenceId node.id)
    (holds : bucket.entries.Holds items) (unknown : ∀ entry ∈ items, entry.node.id ≠ node.id)
    (full : items.length = bucketSize) (seenIn : SeenIn)
    (someBad : ∃ entry ∈ items, entry.rating now = .bad) :
    ∃ news, t.update node seenIn now = some { t with buckets := before ++ news ++ after } ∧
      Effect t.referenceId bucket items node seenIn now news := by
  have found := located.findBucket
  rw [prefixLen_eq] at found
  have noSlot := holds.not_isNotFull full
  rcases exists_findIdx? someBad with ⟨position, inside, isPosition, isBad⟩
  obtain ⟨entries, writes, holdsWritten⟩ := holds.indexMut inside (freshEntry node seenIn now)
  obtain ⟨earlier, later, items_eq, written_eq⟩ :=
    exists_around inside (freshEntry node seenIn now)
  rw [written_eq] at holdsWritten
  refine ⟨[⟨entries, bucket.bounds⟩], ?_, .replaced unknown full items_eq isBad holdsWritten⟩
  rw [freshEntry] at writes
  simp only [RoutingTable.update, located.isEmpty_eq, found, holds.asSlice_eq,
    findIdx?_eq_none unknown, noSlot, isPosition, writes, Option.bind_eq_bind,
    Option.bind_some, Bool.false_eq_true, if_false, located.setBucket, Option.pure_def]

/-- Case 3: in a full bucket without a bad entry, the update tries to split. -/
theorem Located.update_full (located : t.Located prefixLen before bucket after)
    (prefixLen_eq : prefixLen = commonPrefixLength t.referenceId node.id)
    (holds : bucket.entries.Holds items) (unknown : ∀ entry ∈ items, entry.node.id ≠ node.id)
    (full : items.length = bucketSize) (usable : ∀ entry ∈ items, entry.rating now ≠ .bad) :
    t.update node seenIn now =
      if bucket.bounds.stop - bucket.bounds.start > 1 then
        t.splitBucket bucket before.length prefixLen (freshEntry node seenIn now)
      else some t := by
  have found := located.findBucket
  rw [prefixLen_eq] at found
  have noSlot := holds.not_isNotFull full
  simp only [RoutingTable.update, located.isEmpty_eq, found, holds.asSlice_eq,
    findIdx?_eq_none unknown, findIdx?_eq_none usable, noSlot, Option.bind_eq_bind,
    Option.bind_some, Option.pure_def, Bool.false_eq_true, if_false, freshEntry, prefixLen_eq]

/-- An update that finds a bucket does not panic, and has one of the effects on it. -/
theorem Located.update (located : t.Located prefixLen before bucket after)
    (prefixLen_eq : prefixLen = commonPrefixLength t.referenceId node.id)
    (holds : bucket.entries.Holds items) (seenIn : SeenIn) (now : Instant) :
    ∃ news, t.update node seenIn now = some { t with buckets := before ++ news ++ after } ∧
      Effect t.referenceId bucket items node seenIn now news := by
  by_cases known : ∃ entry ∈ items, entry.node.id = node.id
  · exact located.update_known prefixLen_eq holds known seenIn now
  · have unknown : ∀ entry ∈ items, entry.node.id ≠ node.id :=
      fun entry member same => known ⟨entry, member, same⟩
    by_cases room : items.length < bucketSize
    · exact located.update_room prefixLen_eq holds unknown room seenIn now
    · have full : items.length = bucketSize :=
        Nat.le_antisymm holds.capacity (Nat.le_of_not_lt room)
      by_cases someBad : ∃ entry ∈ items, entry.rating now = .bad
      · exact located.update_bad prefixLen_eq holds unknown full seenIn someBad
      · have usable : ∀ entry ∈ items, entry.rating now ≠ .bad :=
          fun entry member isBad => someBad ⟨entry, member, isBad⟩
        rw [located.update_full prefixLen_eq holds unknown full usable]
        by_cases wide : bucket.bounds.stop - bucket.bounds.start > 1
        · rw [if_pos wide]
          exact located.splitBucket prefixLen_eq holds unknown full usable (by omega)
        · rw [if_neg wide]
          refine ⟨[bucket], ?_, .discarded unknown full usable ?_ holds (List.Perm.refl _)⟩
          · rw [List.append_assoc, List.singleton_append, ← located.buckets_eq]
          · have narrow (entry : RoutingEntry) :
                ¬ Falls t.referenceId bucket.upperBounds entry := by
              rw [Falls, Bucket.upperBounds_contains_iff]
              omega
            intro entry _
            exact iff_of_false (narrow entry) (narrow _)

end RoutingTable

end MainlineDht.Rust
