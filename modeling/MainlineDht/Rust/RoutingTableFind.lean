import MainlineDht.Buckets.Walk
import MainlineDht.Rust.RoutingTableInvariant
import MainlineDht.Sequence.Blocks

/-!
# Lookups in the Rust routing table

For an id that has a bucket, `find` does not panic: no push meets a full result
and no index leaves the table.  The one id without a bucket is the reference id.
-/

namespace MainlineDht.Rust

open Buckets Intervals Sequence Transition

namespace RoutingTable

/-! ## The loops of `find` -/

section Loops

variable {nodeId : NodeId} {entries : List RoutingEntry} {result : FixedVec NodeContactInfo}
  {nodes : List NodeContactInfo}

/-- The first loop ends at the entry with the id, or has pushed all nodes. -/
theorem findInBucket_eq (holds : result.Holds nodes)
    (fits : nodes.length + entries.length ≤ bucketSize) :
    (∃ entry ∈ entries, entry.node.id = nodeId ∧
        findInBucket nodeId entries result = some (.exact entry.node)) ∨
      ((∀ entry ∈ entries, entry.node.id ≠ nodeId) ∧
        ∃ result', findInBucket nodeId entries result = some (.closest result') ∧
          result'.Holds (nodes ++ entries.map RoutingEntry.node)) := by
  induction entries generalizing nodes result with
  | nil => exact Or.inr ⟨by simp, result, rfl, by simpa using holds⟩
  | cons entry entries ih =>
      rw [List.length_cons] at fits
      by_cases same : entry.node.id = nodeId
      · exact Or.inl ⟨entry, List.mem_cons_self, same, if_pos same⟩
      · obtain ⟨pushed, pushes, holdsPushed⟩ := holds.push (by omega) entry.node
        have longer : (nodes ++ [entry.node]).length = nodes.length + 1 := List.length_append
        have goesOn : findInBucket nodeId (entry :: entries) result =
            findInBucket nodeId entries pushed := by
          rw [findInBucket, if_neg same, pushes, Option.bind_some]
        rw [goesOn, List.map_cons, List.append_cons, List.forall_mem_cons]
        rcases ih holdsPushed (by omega) with ⟨found, member, isId, exact_eq⟩ | ⟨missing, rest⟩
        · exact Or.inl ⟨found, List.mem_cons_of_mem _ member, isId, exact_eq⟩
        · exact Or.inr ⟨⟨same, missing⟩, rest⟩

/-- Pushing stops in time: the result gets as many nodes as it has room for. -/
theorem pushUntilFull_eq (holds : result.Holds nodes) (room : nodes.length < bucketSize) :
    ∃ result', pushUntilFull entries result = some result' ∧
      result'.Holds ((nodes ++ entries.map RoutingEntry.node).take bucketSize) := by
  induction entries generalizing nodes result with
  | nil =>
      refine ⟨result, rfl, ?_⟩
      rwa [List.map_nil, List.append_nil, List.take_of_length_le room.le]
  | cons entry entries ih =>
      obtain ⟨pushed, pushes, holdsPushed⟩ := holds.push room entry.node
      have longer : (nodes ++ [entry.node]).length = nodes.length + 1 := List.length_append
      rw [pushUntilFull, pushes, Option.bind_some, List.map_cons, List.append_cons]
      by_cases full : (nodes ++ [entry.node]).length = bucketSize
      · rw [if_pos (holdsPushed.isFull_iff.mpr full)]
        refine ⟨pushed, rfl, ?_⟩
        rwa [← full, List.take_left]
      · rw [if_neg (mt holdsPushed.isFull_iff.mp full)]
        exact ih holdsPushed (by omega)

variable {t : RoutingTable} {bucketIndex offset : Nat}

/-- The entries of the bucket at an index. -/
def itemsAt (t : RoutingTable) (bucketIndex : Nat) : List RoutingEntry :=
  t.buckets[bucketIndex]?.elim [] fun bucket => bucket.entries.items

theorem Sound.takeFrom (sound : t.Sound) (inside : bucketIndex < t.buckets.length)
    (holds : result.Holds nodes) (room : nodes.length < bucketSize) :
    ∃ result', t.takeFrom bucketIndex result = some result' ∧
      result'.Holds ((nodes ++ (t.itemsAt bucketIndex).map RoutingEntry.node).take bucketSize) := by
  have isBucket := sound.bucket _ (List.getElem_mem inside)
  obtain ⟨result', pushes, holdsPushed⟩ := pushUntilFull_eq holds room
  refine ⟨result', ?_, holdsPushed⟩
  simpa only [RoutingTable.takeFrom, itemsAt, List.getElem?_eq_getElem inside, Option.elim_some,
    isBucket.holds.asSlice_eq, Option.bind_eq_bind, Option.bind_some] using pushes

/-- A visit under a guard that makes it safe. -/
theorem Sound.visit (sound : t.Sound) {guard : Bool} (holds : result.Holds nodes)
    (safe : guard = true → bucketIndex < t.buckets.length ∧ nodes.length < bucketSize) :
    ∃ result', t.visit guard bucketIndex result = some result' ∧
      result'.Holds ((nodes ++ (if guard then t.itemsAt bucketIndex else []).map
        RoutingEntry.node).take bucketSize) := by
  cases guard with
  | true => exact sound.takeFrom (safe rfl).1 holds (safe rfl).2
  | false =>
      refine ⟨result, rfl, ?_⟩
      rwa [if_neg Bool.false_ne_true, List.map_nil, List.append_nil,
        List.take_of_length_le holds.capacity]

/-- Both visits at an offset together. -/
theorem Sound.visits (sound : t.Sound) (inside : bucketIndex < t.buckets.length)
    (positive : 0 < offset) (holds : result.Holds nodes) (room : nodes.length < bucketSize) :
    ∃ lower higher, t.visit (bucketIndex ≥ offset) (bucketIndex - offset) result = some lower ∧
      t.visit (bucketIndex + offset < t.buckets.length ∧ lower.isNotFull) (bucketIndex + offset)
        lower = some higher ∧
      higher.Holds ((nodes ++ ((stops bucketIndex (t.buckets.length - 1) offset).flatMap
        t.itemsAt).map RoutingEntry.node).take bucketSize) := by
  obtain ⟨lower, takesLower, holdsLower⟩ :=
    @Sound.visit _ _ t (bucketIndex - offset) sound (bucketIndex ≥ offset) holds
      fun _ => ⟨by omega, room⟩
  obtain ⟨higher, takesHigher, holdsHigher⟩ :=
    @Sound.visit _ _ t (bucketIndex + offset) sound
      (bucketIndex + offset < t.buckets.length ∧ lower.isNotFull) holdsLower fun guarded =>
        have both := of_decide_eq_true guarded
        ⟨both.1, holdsLower.isNotFull_iff.mp both.2⟩
  refine ⟨lower, higher, takesLower, takesHigher, ?_⟩
  have stops_eq : (stops bucketIndex (t.buckets.length - 1) offset).flatMap t.itemsAt =
      (if bucketIndex ≥ offset then t.itemsAt (bucketIndex - offset) else []) ++
        if bucketIndex + offset < t.buckets.length then t.itemsAt (bucketIndex + offset)
        else [] := by
    have upper : (0 < offset ∧ bucketIndex + offset ≤ t.buckets.length - 1) ↔
        bucketIndex + offset < t.buckets.length := by
      omega
    simp only [stops, upper, ge_iff_le]
    split <;> split <;> simp
  simp only [decide_eq_true_iff] at holdsLower holdsHigher
  rw [stops_eq, List.map_append, ← List.append_assoc]
  by_cases full : lower.isNotFull
  · simpa only [take_take_append, full, and_true] using holdsHigher
  · -- a full result stays as it is
    simp only [full, and_false, if_false, Bool.false_eq_true, List.map_nil, List.append_nil,
      List.take_take, Nat.min_self] at holdsHigher
    have long := Nat.le_of_not_lt (mt holdsLower.isNotFull_iff.mpr full)
    rw [List.length_take] at long
    rwa [List.take_append_of_le_length (by omega)]

/-- The walk over the neighbouring buckets never leaves the table and never
pushes to a full result, which gets as many nodes as it has room for. -/
theorem Sound.findLoop (sound : t.Sound) (inside : bucketIndex < t.buckets.length)
    (positive : 0 < offset) (holds : result.Holds nodes) :
    ∃ result', t.findLoop bucketIndex offset result = some result' ∧
      result'.Holds ((nodes ++ ((outward bucketIndex (t.buckets.length - 1) offset).flatMap
        t.itemsAt).map RoutingEntry.node).take bucketSize) := by
  induction remaining : bucketIndex + t.buckets.length + 1 - offset
      generalizing offset result nodes with
  | zero =>
      refine ⟨result, ?_, ?_⟩
      · rw [RoutingTable.findLoop, if_neg (by omega)]
      · rwa [outward_of_stops (by omega), List.flatMap_nil, List.map_nil, List.append_nil,
          List.take_of_length_le holds.capacity]
  | succ remaining ih =>
      by_cases room : nodes.length < bucketSize
      · by_cases continues : bucketIndex ≥ offset ∨ bucketIndex + offset < t.buckets.length
        · obtain ⟨lower, higher, takesLower, takesHigher, holdsHigher⟩ :=
            sound.visits inside positive holds room
          obtain ⟨found, finds, holdsFound⟩ := ih (Nat.succ_pos offset) holdsHigher (by omega)
          refine ⟨found, ?_, ?_⟩
          · rw [RoutingTable.findLoop, if_pos ⟨holds.isNotFull_iff.mpr room, continues⟩]
            simp only [takesLower, takesHigher, Option.bind_eq_bind, Option.bind_some]
            exact finds
          · rwa [take_take_append, List.append_assoc, ← List.map_append, ← List.flatMap_append,
              ← outward_of_continues (by omega)] at holdsFound
        · refine ⟨result, ?_, ?_⟩
          · rw [RoutingTable.findLoop, if_neg (fun both => continues both.2)]
          · rwa [outward_of_stops (by omega), List.flatMap_nil, List.map_nil, List.append_nil,
              List.take_of_length_le holds.capacity]
      · refine ⟨result, ?_, ?_⟩
        · rw [RoutingTable.findLoop, if_neg (fun both => room (holds.isNotFull_iff.mp both.1))]
        · have full := Nat.le_antisymm holds.capacity (Nat.le_of_not_lt room)
          rwa [← full, List.take_left]

/-! ## What `find` returns -/

variable {before after : List Bucket} {bucket : Bucket}

theorem Located.itemsAt {prefixLen : Nat} (located : t.Located prefixLen before bucket after) :
    t.itemsAt before.length = bucket.entries.items := by
  rw [RoutingTable.itemsAt, located.buckets_eq, List.getElem?_append_right (Nat.le_refl _),
    Nat.sub_self, List.getElem?_cons_zero, Option.elim_some]

/-- The entries in the order in which a lookup that starts at a bucket visits them. -/
def visited (t : RoutingTable) (bucketIndex : Nat) : List RoutingEntry :=
  (outward bucketIndex (t.buckets.length - 1) 0).flatMap t.itemsAt

/-- A lookup returns the entry with the id from the bucket of its prefix length,
or the first entries on the walk from there. -/
theorem Sound.find_located (sound : t.Sound)
    (located : t.Located (commonPrefixLength t.referenceId nodeId) before bucket after) :
    (∃ entry ∈ bucket.entries.items, entry.node.id = nodeId ∧
        t.find nodeId = some (.exact entry.node)) ∨
      ((∀ entry ∈ bucket.entries.items, entry.node.id ≠ nodeId) ∧
        ∃ result, t.find nodeId = some (.closest result) ∧
          result.Holds (((t.visited before.length).take bucketSize).map RoutingEntry.node)) := by
  have isBucket := located.isBucket
  have inside := located.index_lt
  have holds := (sound.bucket bucket isBucket).holds
  simp only [RoutingTable.find, located.findBucket, holds.asSlice_eq, Option.bind_eq_bind,
    Option.bind_some]
  rcases findInBucket_eq FixedVec.Holds.new (by simpa using holds.capacity) with
    ⟨entry, member, same, exact_eq⟩ | ⟨missing, result, closest_eq, holdsResult⟩
  · exact Or.inl ⟨entry, member, same, by rw [exact_eq]; rfl⟩
  · obtain ⟨found, finds, holdsFound⟩ := sound.findLoop inside Nat.one_pos holdsResult
    refine Or.inr ⟨missing, found, ?_, ?_⟩
    · simp only [closest_eq, finds, Option.bind_some, Option.pure_def]
    · rwa [visited, outward_zero, List.flatMap_cons, located.itemsAt, List.map_take,
        List.map_append]

end Loops

/-! ## No id but the reference id makes a call panic -/

theorem Sound.find {t : RoutingTable} (sound : t.Sound) {nodeId : NodeId}
    (different : nodeId ≠ t.referenceId) : ∃ found, t.find nodeId = some found := by
  obtain ⟨before, bucket, after, located⟩ := sound.exists_located different
  rcases sound.find_located located with ⟨_, _, _, finds⟩ | ⟨_, _, finds, _⟩
  · exact ⟨_, finds⟩
  · exact ⟨_, finds⟩

/-- Looking up the reference id panics. -/
theorem Sound.find_reference {t : RoutingTable} (sound : t.Sound) :
    t.find t.referenceId = none := by
  simp only [RoutingTable.find, sound.findBucket_reference, Option.bind_eq_bind, Option.bind_none]

/-- In every reachable table, exactly the ids other than the reference id can be
looked up and updated without a panic. -/
theorem accepts_iff (referenceId : NodeId) (t : RoutingTable)
    (reachable : Reachable step (new referenceId) t) (id : NodeId) (address : SocketAddrV4)
    (seenIn : SeenIn) (now : Instant) :
    ((t.find id).isSome ∧ (t.update { id := id, address := address } seenIn now).isSome) ↔
      id ≠ referenceId := by
  obtain ⟨sound, rfl⟩ := sound_of_reachable reachable
  constructor
  · rintro ⟨found, _⟩ rfl
    rw [sound.find_reference] at found
    cases found
  · intro different
    obtain ⟨found, finds⟩ := sound.find different
    obtain ⟨_, _, _, _, _, updated, _⟩ :=
      @Sound.update_effect t { id := id, address := address } sound different seenIn now
    rw [finds, updated]
    exact ⟨rfl, rfl⟩

/-- A node of the full upper half is looked up and updated. -/
theorem accepts_iff_split :
    ∃ t : RoutingTable, t.buckets.length = 2 ∧ t.storedEntries.length = 9 ∧
      (t.find (leadingId 10)).isSome ∧ (t.update (referral 10).node .query 5).isSome := by
  have splits : (perform step (new (leadingId 0)) nineReferrals).any
      (fun t => t.buckets.length = 2 ∧ t.storedEntries.length = 9) = true := by
    decide +kernel
  obtain ⟨t, reachable, checked⟩ := exists_reachable splits
  obtain ⟨two, nine⟩ := of_decide_eq_true checked
  exact ⟨t, two, nine,
    (accepts_iff (leadingId 0) t reachable (leadingId 10) _ .query 5).mpr (by decide)⟩

/-- The reference id makes both calls panic, already in a new table. -/
theorem not_accepts_reference :
    ∃ t, Reachable step (new (leadingId 0)) t ∧ t.find (leadingId 0) = none ∧
      t.update (referral 0).node .query 5 = none :=
  ⟨_, ⟨[], .initial⟩, (new_sound (leadingId 0)).find_reference,
    (new_sound (leadingId 0)).update_reference rfl .query 5⟩

end RoutingTable

end MainlineDht.Rust
