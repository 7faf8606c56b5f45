import MainlineDht.Go.NodeInfo
import Mathlib.Data.Int.Order.Basic

/-!
# The Go routing table

The functions of `routing_bucket.go` and `routing_table.go`.  A call that
panics has the result `none`: an index or a slice bound out of range, or the
explicit panic of `splitAt`.  The lock only serialises calls and has no
counterpart here.
-/

namespace MainlineDht.Go

/-- The entries of a bucket, in the order of their arrival, and how many it takes. -/
structure Bucket where
  bucketSize : Nat
  entries : List NodeInfo
  deriving DecidableEq

/-- An empty bucket. -/
def newBucket (bucketSize : Nat) : Bucket where
  bucketSize := bucketSize
  entries := []

namespace Bucket

/-- Some entry has the id. -/
def containsNodeId (b : Bucket) (id : NodeId) : Bool :=
  b.entries.any fun entry => isEqual entry.nodeId id

/-- The updated bucket, and whether the entry is in it. -/
def addEntry (b : Bucket) (entry : NodeInfo) : Bucket × Bool :=
  if b.containsNodeId entry.nodeId then (b, true)
  else if b.entries.length ≥ b.bucketSize then (b, false)
  else ({ b with entries := b.entries ++ [entry] }, true)

/-- The entries to return, and whether they are an exact match. -/
def getEntryByIdOrReturnAll (b : Bucket) (id : NodeId) : List NodeInfo × Bool :=
  match b.entries.find? fun entry => isEqual entry.nodeId id with
  | some entry => ([entry], true)
  | none => (b.entries, false)

/-- One round of the loop of `splitAt`. -/
def splitEntry (bitPosition : Nat) (buckets : Bucket × Bucket) (entry : NodeInfo) :
    Option (Bucket × Bucket) := do
  if ← isBitSet entry.nodeId bitPosition then
    return (buckets.1, (buckets.2.addEntry entry).1)
  else
    return ((buckets.1.addEntry entry).1, buckets.2)

/-- The zero bucket and the one bucket. -/
def splitAt (b : Bucket) (bitPosition : Int) : Option (Bucket × Bucket) :=
  if bitPosition < 0 ∨ bitPosition > 159 then none
  else b.entries.foldlM (splitEntry bitPosition.toNat) (newBucket b.bucketSize, newBucket b.bucketSize)

theorem splitAt_position {b zeroBucket oneBucket : Bucket} {bitPosition : Int}
    (split : b.splitAt bitPosition = some (zeroBucket, oneBucket)) :
    0 ≤ bitPosition ∧ bitPosition ≤ 159 := by
  unfold splitAt at split
  by_cases outside : bitPosition < 0 ∨ bitPosition > 159
  · rw [if_pos outside] at split
    cases split
  · omega

end Bucket

/-- The buckets of a table: bucket `i` is for ids that share `i` bits with the own
id, the last one for all that share more. -/
structure RoutingTable where
  thisNodeInfo : NodeInfo
  bucketSize : Nat
  table : List Bucket
  deriving DecidableEq

/-- A table begins with one bucket, for all ids. -/
def newRoutingTable (bucketSize : Nat) (thisNodeInfo : NodeInfo) : RoutingTable where
  thisNodeInfo := thisNodeInfo
  bucketSize := bucketSize
  table := [newBucket bucketSize]

namespace RoutingTable

/-- `t.table[index]` -/
def bucketAt (t : RoutingTable) (index : Int) : Option Bucket :=
  if 0 ≤ index then t.table[index.toNat]? else none

/-- `len(t.table) - 1` -/
def currentMaxPrefixLength (t : RoutingTable) : Int :=
  t.table.length - 1

/-- Only the last bucket is split, and never past the last bit of an id. -/
theorem length_le_of_split {t : RoutingTable} {prefixLength : Int} {bucket : Bucket}
    {buckets : Bucket × Bucket}
    (split : bucket.splitAt (min prefixLength t.currentMaxPrefixLength) = some buckets)
    (kept : ¬ prefixLength < t.currentMaxPrefixLength) : t.table.length ≤ 160 := by
  have position := Bucket.splitAt_position split
  rw [min_eq_right (not_lt.mp kept), currentMaxPrefixLength] at position
  omega

/-- The recursion ends because `splitAt` panics past the last bit of an id, so
the table cannot grow for ever. -/
def addEntryRec (t : RoutingTable) (entry : NodeInfo) : Option RoutingTable :=
  let prefixLength : Int := commonPrefixLength t.thisNodeInfo.nodeId entry.nodeId
  let bucketIndex := min prefixLength t.currentMaxPrefixLength
  match t.bucketAt bucketIndex with
  | none => none
  | some bucket =>
      if (bucket.addEntry entry).2 then
        some { t with table := t.table.set bucketIndex.toNat (bucket.addEntry entry).1 }
      else if _dropped : prefixLength < t.currentMaxPrefixLength then
        some t
      else
        match _split : bucket.splitAt bucketIndex with
        | none => none
        | some (zeroBucket, oneBucket) =>
            match isBitSet t.thisNodeInfo.nodeId bucketIndex.toNat with
            | none => none
            | some true =>
                addEntryRec
                  { t with table := t.table.set bucketIndex.toNat zeroBucket ++ [oneBucket] } entry
            | some false =>
                addEntryRec
                  { t with table := t.table.set bucketIndex.toNat oneBucket ++ [zeroBucket] } entry
termination_by 161 - t.table.length
decreasing_by
  all_goals
    have bounded := length_le_of_split _split _dropped
    simp only [List.length_append, List.length_set, List.length_singleton]
    omega

/-- The recursion, which the program runs under a lock. -/
def addEntry (t : RoutingTable) (entry : NodeInfo) : Option RoutingTable :=
  t.addEntryRec entry

/-- One bucket of the walk in `findNodeWithoutSelf`: the exact match, or the
result with as many entries as there is space for. -/
def collect (t : RoutingTable) (targetId : NodeId) (i : Int) (result : List NodeInfo) :
    Option (List NodeInfo × Bool) := do
  let bucket ← t.bucketAt i
  let (entries, exactMatch) := bucket.getEntryByIdOrReturnAll targetId
  if exactMatch then
    return (entries, true)
  else
    let maxSpaceLeft : Int := t.bucketSize - result.length
    let entriesToAppend := min maxSpaceLeft entries.length
    if entriesToAppend < 0 then none
    else return (result ++ entries.take entriesToAppend.toNat, false)

/-- A bucket is looked at when the guard of its visit holds. -/
def visit (t : RoutingTable) (targetId : NodeId) (guard : Bool) (i : Int)
    (result : List NodeInfo) : Option (List NodeInfo × Bool) :=
  if guard then t.collect targetId i result else some (result, false)

/-- The loop of `findNodeWithoutSelf`. -/
def findLoop (t : RoutingTable) (targetId : NodeId) (startBucketIndex : Int) (offset : Nat)
    (result : List NodeInfo) : Option (List NodeInfo × Bool) :=
  if startBucketIndex - offset > 0 ∨ startBucketIndex + offset ≤ t.currentMaxPrefixLength then do
    let i := startBucketIndex - offset
    let (result, exactMatch) ← t.visit targetId (i ≥ 0) i result
    if exactMatch then
      return (result, true)
    let i := startBucketIndex + offset
    let (result, exactMatch) ←
      t.visit targetId (offset > 0 ∧ i ≤ t.currentMaxPrefixLength) i result
    if exactMatch then
      return (result, true)
    if result.length ≥ t.bucketSize then
      return (result, false)
    else
      t.findLoop targetId startBucketIndex (offset + 1) result
  else
    return (result, false)
termination_by startBucketIndex.natAbs + t.currentMaxPrefixLength.natAbs + 1 - offset
decreasing_by omega

/-- The entry with the id, or entries of buckets around the one of its prefix
length.  A prefix length beyond the last bucket belongs to the last one. -/
def findNodeWithoutSelf (t : RoutingTable) (targetId : NodeId) : Option (List NodeInfo × Bool) :=
  let prefixLength : Int := commonPrefixLength t.thisNodeInfo.nodeId targetId
  let startBucketIndex := min prefixLength t.currentMaxPrefixLength
  t.findLoop targetId startBucketIndex 0 []

/-- The own id is answered by the own contact, all others by the table. -/
def findNode (t : RoutingTable) (targetId : NodeId) : Option (List NodeInfo × Bool) :=
  if isEqual t.thisNodeInfo.nodeId targetId then some ([t.thisNodeInfo], true)
  else t.findNodeWithoutSelf targetId

end RoutingTable

end MainlineDht.Go
