import MainlineDht.Buckets.Reference
import MainlineDht.Go.RoutingTable

/-!
# The Go routing table in closed form

Whatever is offered to `addEntry` in whatever order, the table is the closed
form of `Buckets.reference`: depth is the prefix length shared with this node,
and the bucket that is split is the one that holds the deepest entries.
-/

namespace MainlineDht.Go

open Buckets NodeId

/-! ## Buckets -/

namespace Bucket

variable {b : Bucket} {entry : NodeInfo}

theorem containsNodeId_iff {id : NodeId} :
    b.containsNodeId id = true ↔ id ∈ b.entries.map NodeInfo.nodeId := by
  simp [containsNodeId]

theorem addEntry_of_mem (known : entry.nodeId ∈ b.entries.map NodeInfo.nodeId) :
    b.addEntry entry = (b, true) := by
  rw [addEntry, if_pos (containsNodeId_iff.mpr known)]

theorem addEntry_of_full (new : entry.nodeId ∉ b.entries.map NodeInfo.nodeId)
    (full : b.bucketSize ≤ b.entries.length) : b.addEntry entry = (b, false) := by
  rw [addEntry, if_neg (mt containsNodeId_iff.mp new), if_pos full]

theorem addEntry_of_room (new : entry.nodeId ∉ b.entries.map NodeInfo.nodeId)
    (room : b.entries.length < b.bucketSize) :
    b.addEntry entry = ({ b with entries := b.entries ++ [entry] }, true) := by
  rw [addEntry, if_neg (mt containsNodeId_iff.mp new), if_neg (Nat.not_le_of_lt room)]

/-- The bit of an entry at a position inside an id. -/
def bitAt (position : Nat) (entry : NodeInfo) : Bool :=
  entry.nodeId.bits[position]?.getD false

theorem isBitSet_eq_bitAt {position : Nat} (small : position < 160) (entry : NodeInfo) :
    isBitSet entry.nodeId position = some (bitAt position entry) := by
  have inside : position < entry.nodeId.bits.length := by rwa [length_bits]
  rw [isBitSet_eq, bitAt, List.getElem?_eq_getElem inside, Option.getD_some]

/-- The loop of `splitAt` deals the entries out in order; with distinct ids and
no more entries than a bucket holds, none is refused. -/
theorem foldlM_splitEntry {k position : Nat} (small : position < 160) (entries : List NodeInfo) :
    ∀ zero one : List NodeInfo, zero.length + entries.length ≤ k →
      one.length + entries.length ≤ k → ((zero ++ entries).map NodeInfo.nodeId).Nodup →
      ((one ++ entries).map NodeInfo.nodeId).Nodup →
      entries.foldlM (splitEntry position) (Bucket.mk k zero, Bucket.mk k one) =
        some (Bucket.mk k (zero ++ entries.filter fun entry => !bitAt position entry),
          Bucket.mk k (one ++ entries.filter (bitAt position))) := by
  induction entries with
  | nil => simp
  | cons entry entries ih =>
      intro zero one zeroFits oneFits zeroDistinct oneDistinct
      rw [List.length_cons] at zeroFits oneFits
      have round : splitEntry position (Bucket.mk k zero, Bucket.mk k one) entry =
          some (if bitAt position entry then (Bucket.mk k zero, Bucket.mk k (one ++ [entry]))
            else (Bucket.mk k (zero ++ [entry]), Bucket.mk k one)) := by
        have new {side : List NodeInfo}
            (distinct : ((side ++ entry :: entries).map NodeInfo.nodeId).Nodup) :
            entry.nodeId ∉ side.map NodeInfo.nodeId := by
          rw [List.map_append, List.map_cons] at distinct
          exact fun known => (List.nodup_middle.mp distinct).notMem (List.mem_append_left _ known)
        have zeroAdded :=
          @addEntry_of_room (Bucket.mk k zero) entry (new zeroDistinct) (by simp; omega)
        have oneAdded :=
          @addEntry_of_room (Bucket.mk k one) entry (new oneDistinct) (by simp; omega)
        simp only [splitEntry, isBitSet_eq_bitAt small, Option.bind_eq_bind, Option.bind_some,
          zeroAdded, oneAdded]
        cases bitAt position entry <;> rfl
      have zeroRest : ((zero ++ entries).map NodeInfo.nodeId).Nodup :=
        zeroDistinct.sublist (((List.sublist_cons_self entry entries).append_left zero).map _)
      have oneRest : ((one ++ entries).map NodeInfo.nodeId).Nodup :=
        oneDistinct.sublist (((List.sublist_cons_self entry entries).append_left one).map _)
      rw [List.foldlM_cons, round, Option.bind_eq_bind, Option.bind_some]
      cases isOne : bitAt position entry with
      | true =>
          rw [if_pos rfl, ih zero (one ++ [entry]) (by omega) (by simp; omega) zeroRest
            (by simpa using oneDistinct)]
          simp [isOne]
      | false =>
          rw [if_neg (by decide), ih (zero ++ [entry]) one (by simp; omega) (by omega)
            (by simpa using zeroDistinct) oneRest]
          simp [isOne]

/-- `splitAt` divides the entries by their bit. -/
theorem splitAt_eq {k position : Nat} {entries : List NodeInfo} (small : position < 160)
    (fits : entries.length ≤ k) (distinct : (entries.map NodeInfo.nodeId).Nodup) :
    (Bucket.mk k entries).splitAt position =
      some (Bucket.mk k (entries.filter fun entry => !bitAt position entry),
        Bucket.mk k (entries.filter (bitAt position))) := by
  rw [splitAt, if_neg (by omega)]
  exact foldlM_splitEntry small entries [] [] (by simpa using fits) (by simpa using fits)
    (by simpa using distinct) (by simpa using distinct)

end Bucket

/-! ## One step of the recursion -/

namespace RoutingTable

variable {t : RoutingTable} {entry : NodeInfo} {bucket : Bucket} {i : Nat}

/-- The index that `addEntryRec` computes. -/
def IndexOf (t : RoutingTable) (entry : NodeInfo) (i : Nat) : Prop :=
  min (commonPrefixLength t.thisNodeInfo.nodeId entry.nodeId : Int) t.currentMaxPrefixLength = i

theorem addEntryRec_of_success (index : t.IndexOf entry i) (found : t.bucketAt i = some bucket)
    (success : (bucket.addEntry entry).2 = true) :
    t.addEntryRec entry = some { t with table := t.table.set i (bucket.addEntry entry).1 } := by
  rw [addEntryRec, index]
  simp only [found, success, if_true, Int.toNat_natCast]

theorem addEntryRec_of_dropped (index : t.IndexOf entry i) (found : t.bucketAt i = some bucket)
    (refused : (bucket.addEntry entry).2 = false)
    (outside : (commonPrefixLength t.thisNodeInfo.nodeId entry.nodeId : Int) <
      t.currentMaxPrefixLength) :
    t.addEntryRec entry = some t := by
  rw [addEntryRec, index]
  simp [found, refused, outside]

theorem addEntryRec_of_split {zeroBucket oneBucket : Bucket} {own : Bool}
    (index : t.IndexOf entry i) (found : t.bucketAt i = some bucket)
    (refused : (bucket.addEntry entry).2 = false)
    (within : ¬ (commonPrefixLength t.thisNodeInfo.nodeId entry.nodeId : Int) <
      t.currentMaxPrefixLength)
    (split : bucket.splitAt i = some (zeroBucket, oneBucket))
    (bit : isBitSet t.thisNodeInfo.nodeId i = some own) :
    t.addEntryRec entry =
      addEntryRec
        { t with
          table := t.table.set i (if own then zeroBucket else oneBucket) ++
            [if own then oneBucket else zeroBucket] }
        entry := by
  rw [addEntryRec, index]
  simp only [found, refused, Bool.false_eq_true, if_false, dif_neg within]
  split
  · rename_i panics
    rw [split] at panics
    cases panics
  · rename_i first second divides
    rw [split] at divides
    cases divides
    rw [Int.toNat_natCast, bit]
    cases own <;> rfl

/-! ## The closed form as a table -/

/-- The depth of an entry: the number of leading bits it shares with this node. -/
def sharedBits (thisNodeInfo : NodeInfo) : NodeInfo → Nat :=
  commonPrefixLength thisNodeInfo.nodeId ∘ NodeInfo.nodeId

/-- The table of the entries that have arrived, divided up to depth `m`. -/
def tableOf (k : Nat) (thisNodeInfo : NodeInfo) (items : List NodeInfo) (m : Nat) :
    RoutingTable where
  thisNodeInfo := thisNodeInfo
  bucketSize := k
  table := (reference k (sharedBits thisNodeInfo) items m).map (Bucket.mk k)

section TableOf

variable {k m : Nat} {self : NodeInfo} {items : List NodeInfo}

@[simp]
theorem currentMaxPrefixLength_tableOf :
    (tableOf k self items m).currentMaxPrefixLength = m := by
  simp [currentMaxPrefixLength, tableOf]

theorem bucketAt_tableOf (i : Nat) :
    (tableOf k self items m).bucketAt i =
      (reference k (sharedBits self) items m)[i]?.map (Bucket.mk k) := by
  rw [bucketAt, if_pos (Int.natCast_nonneg i), Int.toNat_natCast, tableOf, List.getElem?_map]

theorem indexOf_level (below : sharedBits self entry < m) :
    (tableOf k self items m).IndexOf entry (sharedBits self entry) := by
  rw [IndexOf, currentMaxPrefixLength_tableOf]
  exact min_eq_left (Int.ofNat_le.mpr (Nat.le_of_lt below))

theorem indexOf_last (within : m ≤ sharedBits self entry) :
    (tableOf k self items m).IndexOf entry m := by
  rw [IndexOf, currentMaxPrefixLength_tableOf]
  exact min_eq_right (Int.ofNat_le.mpr within)

/-- Replacing one bucket of the closed form. -/
theorem set_tableOf {others : List NodeInfo} {entries : List NodeInfo} (i : Nat)
    (changed : (reference k (sharedBits self) items m).set i entries =
      reference k (sharedBits self) others m) :
    { tableOf k self items m with
      table := (tableOf k self items m).table.set i (Bucket.mk k entries) } =
      tableOf k self others m := by
  simp only [tableOf, ← List.map_set, changed]

/-- Among the entries from depth `m` on, bit `m` of this node tells which go deeper. -/
theorem bitAt_eq_iff (small : m < 160) (within : m ≤ sharedBits self entry) :
    Bucket.bitAt m entry = Bucket.bitAt m self ↔ m + 1 ≤ sharedBits self entry := by
  have upTo : m ≤ prefixLength self.nodeId entry.nodeId := by
    rwa [← commonPrefixLength_eq]
  have left : m < self.nodeId.bits.length := by rwa [length_bits]
  have right : m < entry.nodeId.bits.length := by rwa [length_bits]
  have goesOn := lt_prefixLength_iff upTo small
  rw [← commonPrefixLength_eq, List.getElem?_eq_getElem left, List.getElem?_eq_getElem right,
    Option.some_inj] at goesOn
  rw [Bucket.bitAt, Bucket.bitAt, List.getElem?_eq_getElem left, List.getElem?_eq_getElem right,
    Option.getD_some, Option.getD_some, eq_comm]
  exact goesOn.symm

theorem filter_bit_eq (small : m < 160) :
    ((deep (sharedBits self) items m).filter fun entry =>
      decide (Bucket.bitAt m entry = Bucket.bitAt m self)) =
      deep (sharedBits self) items (m + 1) := by
  rw [deep_succ_eq_filter_deep]
  apply List.filter_congr
  intro entry member
  rw [decide_eq_decide]
  exact bitAt_eq_iff small (mem_deep.mp member).2

theorem filter_bit_ne (small : m < 160) :
    ((deep (sharedBits self) items m).filter fun entry =>
      decide (¬ Bucket.bitAt m entry = Bucket.bitAt m self)) =
      level (sharedBits self) items m := by
  rw [level_eq_filter_deep]
  apply List.filter_congr
  intro entry member
  rw [decide_eq_decide, not_iff_not]
  exact bitAt_eq_iff small (mem_deep.mp member).2

/-- The two halves of the last bucket: the one that stays and the one that is appended. -/
theorem splitAt_last (small : m < 160) (fits : (deep (sharedBits self) items m).length ≤ k)
    (distinct : (items.map NodeInfo.nodeId).Nodup) :
    ∃ zeroBucket oneBucket,
      (Bucket.mk k (deep (sharedBits self) items m)).splitAt m = some (zeroBucket, oneBucket) ∧
      (if Bucket.bitAt m self then zeroBucket else oneBucket) =
        Bucket.mk k (level (sharedBits self) items m) ∧
      (if Bucket.bitAt m self then oneBucket else zeroBucket) =
        Bucket.mk k (deep (sharedBits self) items (m + 1)) := by
  have deepDistinct : ((deep (sharedBits self) items m).map NodeInfo.nodeId).Nodup :=
    distinct.sublist (List.filter_sublist.map _)
  refine ⟨_, _, Bucket.splitAt_eq small fits deepDistinct, ?_, ?_⟩
  · rw [← filter_bit_ne small]
    cases Bucket.bitAt m self <;> simp
  · rw [← filter_bit_eq small]
    cases Bucket.bitAt m self <;> simp

/-- Splitting the last bucket leaves the closed form divided one level further. -/
theorem addEntryRec_full (small : m < 160) (within : m ≤ sharedBits self entry)
    (distinct : (items.map NodeInfo.nodeId).Nodup)
    (new : entry.nodeId ∉ items.map NodeInfo.nodeId)
    (full : (deep (sharedBits self) items m).length = k) :
    (tableOf k self items m).addEntryRec entry =
      (tableOf k self items (m + 1)).addEntryRec entry := by
  have found : (tableOf k self items m).bucketAt m =
      some (Bucket.mk k (deep (sharedBits self) items m)) := by
    rw [bucketAt_tableOf, reference_getElem?_last]
    rfl
  have absent : entry.nodeId ∉ (deep (sharedBits self) items m).map NodeInfo.nodeId :=
    fun known => new ((List.filter_sublist.map _).subset known)
  have refused : ((Bucket.mk k (deep (sharedBits self) items m)).addEntry entry).2 = false := by
    rw [Bucket.addEntry_of_full absent (ge_of_eq full)]
  have inside : ¬ (sharedBits self entry : Int) < m :=
    not_lt.mpr (Int.ofNat_le.mpr within)
  obtain ⟨zeroBucket, oneBucket, split, stays, appended⟩ :=
    splitAt_last small (le_of_eq full) distinct
  rw [addEntryRec_of_split (indexOf_last within) found refused
    (by rwa [currentMaxPrefixLength_tableOf]) split (Bucket.isBitSet_eq_bitAt small self),
    stays, appended]
  congr 1
  simp only [tableOf, ← reference_succ (le_of_eq full), List.map_append, List.map_set,
    List.map_singleton]

/-- A bucket that accepts the entry is written back. -/
theorem addEntryRec_of_accepted {i : Nat} {entries accepted others : List NodeInfo}
    (index : (tableOf k self items m).IndexOf entry i)
    (found : (reference k (sharedBits self) items m)[i]? = some entries)
    (accepts : (Bucket.mk k entries).addEntry entry = (Bucket.mk k accepted, true))
    (changed : (reference k (sharedBits self) items m).set i accepted =
      reference k (sharedBits self) others m) :
    (tableOf k self items m).addEntryRec entry = some (tableOf k self others m) := by
  have bucketFound : (tableOf k self items m).bucketAt i = some (Bucket.mk k entries) := by
    rw [bucketAt_tableOf, found]
    rfl
  rw [addEntryRec_of_success index bucketFound (by rw [accepts]), accepts]
  congr 1
  exact set_tableOf i changed

/-- A bucket that already has the entry leaves the table as it is. -/
theorem addEntryRec_of_mem {i : Nat} {entries : List NodeInfo}
    (index : (tableOf k self items m).IndexOf entry i)
    (found : (reference k (sharedBits self) items m)[i]? = some entries)
    (held : entry.nodeId ∈ entries.map NodeInfo.nodeId) :
    (tableOf k self items m).addEntryRec entry = some (tableOf k self items m) := by
  rcases List.getElem?_eq_some_iff.mp found with ⟨inside, is_entries⟩
  apply addEntryRec_of_accepted index found (Bucket.addEntry_of_mem held)
  rw [← is_entries, List.set_getElem_self]

/-- A bucket with room takes a new entry at its end. -/
theorem addEntryRec_of_room {i : Nat} {entries others : List NodeInfo}
    (index : (tableOf k self items m).IndexOf entry i)
    (found : (reference k (sharedBits self) items m)[i]? = some entries)
    (new : entry.nodeId ∉ entries.map NodeInfo.nodeId) (room : entries.length < k)
    (changed : (reference k (sharedBits self) items m).set i (entries ++ [entry]) =
      reference k (sharedBits self) others m) :
    (tableOf k self items m).addEntryRec entry = some (tableOf k self others m) :=
  addEntryRec_of_accepted index found (Bucket.addEntry_of_room new room) changed

/-- A full bucket other than the last one drops a new entry. -/
theorem addEntryRec_of_full (below : sharedBits self entry < m)
    (new : entry.nodeId ∉
      ((level (sharedBits self) items (sharedBits self entry)).take k).map NodeInfo.nodeId)
    (full : k ≤ (level (sharedBits self) items (sharedBits self entry)).length) :
    (tableOf k self items m).addEntryRec entry = some (tableOf k self items m) := by
  have found : (tableOf k self items m).bucketAt (sharedBits self entry) =
      some (Bucket.mk k ((level (sharedBits self) items (sharedBits self entry)).take k)) := by
    rw [bucketAt_tableOf, reference_getElem?_level below]
    rfl
  apply addEntryRec_of_dropped (indexOf_level below) found
  · rw [Bucket.addEntry_of_full new (by simpa using full)]
  · rw [currentMaxPrefixLength_tableOf]
    exact Int.ofNat_lt.mpr below

/-- An entry whose id has arrived before changes nothing. -/
theorem addEntryRec_known (known : entry.nodeId ∈ items.map NodeInfo.nodeId) :
    (tableOf k self items m).addEntryRec entry = some (tableOf k self items m) := by
  obtain ⟨first, arrived, same⟩ := List.mem_map.mp known
  have depth_eq : sharedBits self first = sharedBits self entry := by
    rw [sharedBits, Function.comp_apply, Function.comp_apply, same]
  by_cases below : sharedBits self entry < m
  · by_cases held : entry.nodeId ∈
        ((level (sharedBits self) items (sharedBits self entry)).take k).map NodeInfo.nodeId
    · exact addEntryRec_of_mem (indexOf_level below) (reference_getElem?_level below) held
    · apply addEntryRec_of_full below held
      by_contra room
      rw [List.take_of_length_le (Nat.le_of_not_le room)] at held
      exact held (List.mem_map.mpr ⟨first, mem_level.mpr ⟨arrived, depth_eq⟩, same⟩)
  · have within : m ≤ sharedBits self entry := Nat.le_of_not_lt below
    apply addEntryRec_of_mem (indexOf_last within) reference_getElem?_last
    exact List.mem_map.mpr ⟨first, mem_deep.mpr ⟨arrived, depth_eq ▸ within⟩, same⟩

/-- A new entry below the last bucket. -/
theorem addEntryRec_level (below : sharedBits self entry < m)
    (new : entry.nodeId ∉ items.map NodeInfo.nodeId) :
    (tableOf k self items m).addEntryRec entry = some (tableOf k self (items ++ [entry]) m) := by
  have absent : entry.nodeId ∉
      ((level (sharedBits self) items (sharedBits self entry)).take k).map NodeInfo.nodeId :=
    fun known => new (((List.take_sublist _ _).trans List.filter_sublist).map _ |>.subset known)
  by_cases room : (level (sharedBits self) items (sharedBits self entry)).length < k
  · rw [List.take_of_length_le (Nat.le_of_lt room)] at absent
    apply addEntryRec_of_room (indexOf_level below) _ absent room (reference_concat_level below room)
    rw [reference_getElem?_level below, List.take_of_length_le (Nat.le_of_lt room)]
  · have full := Nat.le_of_not_lt room
    rw [addEntryRec_of_full below absent full, tableOf, tableOf, reference_concat_full below full]

/-- A new entry for which the last bucket has room. -/
theorem addEntryRec_last (within : m ≤ sharedBits self entry)
    (new : entry.nodeId ∉ items.map NodeInfo.nodeId)
    (room : (deep (sharedBits self) items m).length < k) :
    (tableOf k self items m).addEntryRec entry = some (tableOf k self (items ++ [entry]) m) := by
  have absent : entry.nodeId ∉ (deep (sharedBits self) items m).map NodeInfo.nodeId :=
    fun known => new ((List.filter_sublist.map _).subset known)
  exact addEntryRec_of_room (indexOf_last within) reference_getElem?_last absent room
    (reference_concat_last within)

/-- Two entries that share all bits with this node have its id, so a full last
bucket that a new entry belongs to can still be split. -/
theorem lt_of_full (positive : 1 ≤ k) (within : m ≤ sharedBits self entry)
    (new : entry.nodeId ∉ items.map NodeInfo.nodeId)
    (full : (deep (sharedBits self) items m).length = k) : m < 160 := by
  by_contra deepest
  have isSelf {other : NodeInfo} (shared : m ≤ sharedBits self other) :
      self.nodeId = other.nodeId := by
    apply (prefixLength_eq_iff _ _).mp
    rw [← commonPrefixLength_eq]
    apply le_antisymm
    · rw [commonPrefixLength_eq]
      exact prefixLength_le _ _
    · exact (Nat.le_of_not_lt deepest).trans shared
  obtain ⟨first, member⟩ := List.exists_mem_of_length_pos (full ▸ positive)
  obtain ⟨arrived, shared⟩ := mem_deep.mp member
  exact new (List.mem_map.mpr ⟨first, arrived, (isSelf shared).symm.trans (isSelf within)⟩)

/-- The recursion takes a new entry into the closed form, dividing it as far as
needed; each round of it uses up one of the bits that are left. -/
theorem addEntryRec_new (positive : 1 ≤ k) (distinct : (items.map NodeInfo.nodeId).Nodup)
    (new : entry.nodeId ∉ items.map NodeInfo.nodeId)
    (fits : (deep (sharedBits self) items m).length ≤ k)
    (divided : Divided k (sharedBits self) (items ++ [entry]) m) :
    ∃ n, (tableOf k self items m).addEntryRec entry =
        some (tableOf k self (items ++ [entry]) n) ∧
      (deep (sharedBits self) (items ++ [entry]) n).length ≤ k ∧
      Divided k (sharedBits self) (items ++ [entry]) n := by
  induction left : 160 - m using Nat.strong_induction_on generalizing m with
  | _ left ih =>
      by_cases below : sharedBits self entry < m
      · refine ⟨m, addEntryRec_level below new, ?_, divided⟩
        rwa [deep_concat_of_lt below]
      · have within : m ≤ sharedBits self entry := Nat.le_of_not_lt below
        by_cases room : (deep (sharedBits self) items m).length < k
        · refine ⟨m, addEntryRec_last within new room, ?_, divided⟩
          rw [deep_concat_of_le within]
          simpa using Nat.succ_le_of_lt room
        · have full : (deep (sharedBits self) items m).length = k :=
            le_antisymm fits (Nat.le_of_not_lt room)
          have small := lt_of_full positive within new full
          rw [addEntryRec_full small within distinct new full]
          apply ih (160 - (m + 1)) (by omega) ((length_deep_anti (Nat.le_succ m)).trans fits) _ rfl
          intro i isLevel
          rcases Nat.lt_succ_iff_lt_or_eq.mp isLevel with before | rfl
          · exact divided i before
          · rw [deep_concat_of_le within]
            simp [full]

@[simp]
theorem tableOf_table :
    (tableOf k self items m).table =
      (reference k (sharedBits self) items m).map (Bucket.mk k) :=
  rfl

end TableOf

/-! ## Whole runs -/

/-- `addEntry` for one entry after the other. -/
def addEntries (t : RoutingTable) (offered : List NodeInfo) : Option RoutingTable :=
  offered.foldlM addEntry t

/-- All entries stored in the table. -/
def storedEntries (t : RoutingTable) : List NodeInfo :=
  t.table.flatMap Bucket.entries

/-- The entries that count: the first one offered under each id. -/
abbrev distinctOffers (offered : List NodeInfo) : List NodeInfo :=
  firsts NodeInfo.nodeId offered

section Runs

variable {k m : Nat} {self : NodeInfo} {offered : List NodeInfo}

theorem storedEntries_tableOf {items : List NodeInfo} :
    (tableOf k self items m).storedEntries =
      (reference k (sharedBits self) items m).flatten := by
  rw [storedEntries, tableOf_table, List.flatMap_map]
  simp [List.flatMap_def]

/-- After any sequence of offers the table is the closed form at the least depth
that keeps the last bucket within its size. -/
theorem addEntries_eq_tableOf (positive : 1 ≤ k) (self : NodeInfo) (offered : List NodeInfo) :
    ∃ m, (newRoutingTable k self).addEntries offered =
        some (tableOf k self (distinctOffers offered) m) ∧
      IsLeast {m | (deep (sharedBits self) (distinctOffers offered) m).length ≤ k} m := by
  induction offered using List.reverseRecOn with
  | nil =>
      refine ⟨0, rfl, isLeast_iff.mpr ⟨Nat.zero_le k, ?_⟩⟩
      intro i below
      cases below
  | append_singleton offered entry ih =>
      obtain ⟨m, run, least⟩ := ih
      obtain ⟨fits, divided⟩ := isLeast_iff.mp least
      have next : (newRoutingTable k self).addEntries (offered ++ [entry]) =
          (tableOf k self (distinctOffers offered) m).addEntryRec entry := by
        rw [addEntries, List.foldlM_append, ← addEntries, run]
        simp [addEntry]
      rw [next]
      unfold distinctOffers at *
      rw [firsts_concat]
      by_cases known : entry.nodeId ∈ (firsts NodeInfo.nodeId offered).map NodeInfo.nodeId
      · rw [if_pos known]
        exact ⟨m, addEntryRec_known known, least⟩
      · rw [if_neg known]
        obtain ⟨n, added, stillFits, stillDivided⟩ := addEntryRec_new positive
          (nodup_keys_firsts NodeInfo.nodeId offered) known fits (divided.concat entry)
        exact ⟨n, added, isLeast_iff.mpr ⟨stillFits, stillDivided⟩⟩

/-- The closed form of a table as its buckets show it: `m` is the least depth
with at most `k` distinct offers from there on. -/
structure ClosedForm (k : Nat) (self : NodeInfo) (offered : List NodeInfo) (t : RoutingTable)
    (m : Nat) : Prop where
  least : IsLeast {m | (deep (sharedBits self) (distinctOffers offered) m).length ≤ k} m
  length : t.table.length = m + 1
  level : ∀ i < m, t.table[i]? =
    some (Bucket.mk k ((level (sharedBits self) (distinctOffers offered) i).take k))
  last : t.table[m]? = some (Bucket.mk k (deep (sharedBits self) (distinctOffers offered) m))

theorem closedForm_tableOf
    (least : IsLeast {m | (deep (sharedBits self) (distinctOffers offered) m).length ≤ k} m) :
    ClosedForm k self offered (tableOf k self (distinctOffers offered) m) m where
  least := least
  length := by simp
  level i below := by rw [tableOf_table, List.getElem?_map, reference_getElem?_level below]; rfl
  last := by rw [tableOf_table, List.getElem?_map, reference_getElem?_last]; rfl

/-- The number of entries in each bucket. -/
def shape (t : RoutingTable) : List Nat :=
  t.table.map fun bucket => bucket.entries.length

theorem shape_tableOf {items : List NodeInfo} :
    (tableOf k self items m).shape =
      (reference k (sharedBits self) items m).map List.length := by
  rw [shape, tableOf_table, List.map_map]
  rfl

/-- Offers with the same ids divide the table at the same depth. -/
theorem isLeast_unique_of_same_ids {others : List NodeInfo} {n : Nat}
    (same : ∀ id, id ∈ offered.map NodeInfo.nodeId ↔ id ∈ others.map NodeInfo.nodeId)
    (least : IsLeast {m | (deep (sharedBits self) (distinctOffers offered) m).length ≤ k} m)
    (leastOthers : IsLeast {m | (deep (sharedBits self) (distinctOffers others) m).length ≤ k} n) :
    m = n := by
  have counts (i : Nat) : (deep (sharedBits self) (distinctOffers offered) i).length =
      (deep (sharedBits self) (distinctOffers others) i).length :=
    length_deep_of_perm (perm_keys_firsts NodeInfo.nodeId same)
  simp only [counts] at least
  exact least.unique leastOthers

/-- The table refines its closed form: no run panics, and buckets keep their
size, ids stay distinct, stored entries stay, and the shape is a function of the
set of ids. -/
theorem addEntries_closedForm (k : Nat) (positive : 1 ≤ k) (self : NodeInfo)
    (offered : List NodeInfo) :
    ∃ t m, (newRoutingTable k self).addEntries offered = some t ∧
      ClosedForm k self offered t m ∧
      (∀ bucket ∈ t.table, bucket.entries.length ≤ k) ∧
      (t.storedEntries.map NodeInfo.nodeId).Nodup ∧
      (∀ earlier before, earlier <+: offered →
        (newRoutingTable k self).addEntries earlier = some before →
        ∀ entry ∈ before.storedEntries, entry ∈ t.storedEntries) ∧
      (∀ others t', (∀ id, id ∈ offered.map NodeInfo.nodeId ↔ id ∈ others.map NodeInfo.nodeId) →
        (newRoutingTable k self).addEntries others = some t' → t'.shape = t.shape) := by
  obtain ⟨m, run, least⟩ := addEntries_eq_tableOf positive self offered
  have fits := (isLeast_iff.mp least).1
  refine ⟨_, m, run, closedForm_tableOf least, ?_, ?_, ?_, ?_⟩
  · intro bucket member
    obtain ⟨entries, isBucket, rfl⟩ := List.mem_map.mp member
    exact length_le_of_mem_reference fits isBucket
  · rw [storedEntries_tableOf]
    exact nodup_keys_reference (nodup_keys_firsts NodeInfo.nodeId offered)
  · rintro earlier before ⟨later, rfl⟩ runEarlier entry held
    obtain ⟨n, run', leastEarlier⟩ := addEntries_eq_tableOf positive self earlier
    rw [run', Option.some_inj] at runEarlier
    subst runEarlier
    rw [storedEntries_tableOf] at held ⊢
    exact flatten_reference_mono (firsts_extend NodeInfo.nodeId earlier later)
      (isLeast_iff.mp leastEarlier).1 fits held
  · intro others t' same runOthers
    obtain ⟨n, run', leastOthers⟩ := addEntries_eq_tableOf positive self others
    rw [run', Option.some_inj] at runOthers
    subst runOthers
    rw [isLeast_unique_of_same_ids same least leastOthers, shape_tableOf, shape_tableOf]
    exact (map_length_reference_of_perm (perm_keys_firsts NodeInfo.nodeId same)).symm

/-- A contact whose id is one byte followed by zeros. -/
def contact (firstByte : UInt8) : NodeInfo where
  nodeId := ⟨firstByte :: List.replicate 19 0, rfl⟩
  address := { ip := [127, 0, 0, 1], port := 6881, zone := [] }

/-- Three contacts offered to a table of bucket size two, one of them twice. -/
theorem addEntries_closedForm_contacts :
    1 ≤ 2 ∧ ∃ t m, (newRoutingTable 2 (contact 0)).addEntries
        [contact 255, contact 128, contact 255, contact 64] = some t ∧
      ClosedForm 2 (contact 0) [contact 255, contact 128, contact 255, contact 64] t m := by
  obtain ⟨t, m, run, closed, _⟩ := addEntries_closedForm 2 (by decide) (contact 0)
    [contact 255, contact 128, contact 255, contact 64]
  exact ⟨by decide, t, m, run, closed⟩

end Runs

end RoutingTable

end MainlineDht.Go
