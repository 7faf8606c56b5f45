import MainlineDht.Intervals.Consecutive
import MainlineDht.Rust.FixedVec
import MainlineDht.Rust.NodeId
import Mathlib.Data.Option.Basic

/-!
# The Rust routing table

Entries with their ratings, and the `find` and `update` of the table.  A call
that panics has the result `none`: a failed assertion, an index out of range or
an `expect` on nothing.  An instant is a number of nanoseconds, and one reading
`now` of the clock serves a whole call.  Ranges are `u32` in the source; all
bounds here are at most 160.
-/

namespace MainlineDht.Rust

open Intervals

/-- An IPv4 address and a port. -/
structure SocketAddrV4 where
  ip : UInt32
  port : UInt16
  deriving DecidableEq

/-- A node id, and the address at which its node is reached. -/
structure NodeContactInfo where
  id : NodeId
  address : SocketAddrV4
  deriving DecidableEq

/-- How a node is rated. -/
inductive NodeRating
  | good
  | questionable
  | bad
  deriving DecidableEq

/-- Nanoseconds on the monotonic clock. -/
abbrev Instant : Type := Nat

/-- `instant.elapsed().as_secs()`; an instant in the future has elapsed by zero. -/
def elapsedSecs (instant now : Instant) : Nat :=
  (now - instant) / 1000000000

/-- How a node has come to be known. -/
inductive SeenIn
  | query
  | response
  | referral
  deriving DecidableEq

/-- A node, and when it was last heard of. -/
structure RoutingEntry where
  node : NodeContactInfo
  lastResponse : Option Instant
  lastQuery : Option Instant
  deriving DecidableEq

namespace RoutingEntry

/-- A node that nothing has been heard of. -/
def new (node : NodeContactInfo) : RoutingEntry where
  node := node
  lastResponse := none
  lastQuery := none

/-- The rating at a moment, by the whole minutes since the node was heard of. -/
def rating (entry : RoutingEntry) (now : Instant) : NodeRating :=
  let minutesSinceLastQuery := entry.lastQuery.map fun instant => elapsedSecs instant now / 60
  let minutesSinceLastResponse :=
    entry.lastResponse.map fun instant => elapsedSecs instant now / 60
  match minutesSinceLastQuery, minutesSinceLastResponse with
  | none, none => .questionable
  | none, some r => if r ≤ 15 then .good else .bad
  | some _, none => .bad
  | some q, some r => if r ≤ 15 then .good else if q ≤ 15 then .good else .bad

/-- A query and a response are noted with the time; a referral leaves no mark. -/
def update (entry : RoutingEntry) (seenIn : SeenIn) (now : Instant) : RoutingEntry :=
  match seenIn with
  | .query => { entry with lastQuery := some now }
  | .response => { entry with lastResponse := some now }
  | .referral => entry

@[simp]
theorem new_node (node : NodeContactInfo) : (new node).node = node :=
  rfl

@[simp]
theorem update_node (entry : RoutingEntry) (seenIn : SeenIn) (now : Instant) :
    (entry.update seenIn now).node = entry.node := by
  cases seenIn <;> rfl

end RoutingEntry

/-- Entries, and the prefix lengths that they may have. -/
structure Bucket where
  entries : FixedVec RoutingEntry
  bounds : Range Nat

/-- An empty bucket. -/
def Bucket.new (bounds : Range Nat) : Bucket where
  entries := FixedVec.new
  bounds := bounds

/-- The buckets by increasing bounds, and the id to which prefix lengths refer. -/
structure RoutingTable where
  buckets : List Bucket
  referenceId : NodeId

/-- The answer to a lookup. -/
inductive NodeMatch
  | exact (node : NodeContactInfo)
  | closest (nodes : FixedVec NodeContactInfo)

namespace RoutingTable

/-- One bucket for all prefix lengths. -/
def new (referenceId : NodeId) : RoutingTable where
  buckets := [Bucket.new ⟨0, 160⟩]
  referenceId := referenceId

/-- The first bucket with a prefix length in its bounds, and its index.  Without
one, the `expect` after the search panics. -/
def findBucket (t : RoutingTable) (prefixLen : Nat) : Option (Bucket × Nat) :=
  t.buckets.zipIdx.find? fun enumerated => enumerated.1.bounds.contains prefixLen

/-! ## Lookup -/

/-- The first loop of `find`: the entry with the id, or the bucket's nodes. -/
def findInBucket (nodeId : NodeId) : List RoutingEntry → FixedVec NodeContactInfo →
    Option NodeMatch
  | [], result => some (.closest result)
  | entry :: entries, result =>
      if entry.node.id = nodeId then some (.exact entry.node)
      else (result.push entry.node).bind fun result => findInBucket nodeId entries result

/-- Push the nodes of a bucket one by one until the result is full. -/
def pushUntilFull : List RoutingEntry → FixedVec NodeContactInfo →
    Option (FixedVec NodeContactInfo)
  | [], result => some result
  | entry :: entries, result =>
      (result.push entry.node).bind fun result =>
        if result.isFull then some result else pushUntilFull entries result

/-- Take nodes from the bucket at an index, which `expect`s one to be there. -/
def takeFrom (t : RoutingTable) (bucketIndex : Nat) (result : FixedVec NodeContactInfo) :
    Option (FixedVec NodeContactInfo) := do
  let bucket ← t.buckets[bucketIndex]?
  let entries ← bucket.entries.asSlice
  pushUntilFull entries result

/-- A bucket is taken from when the guard of its visit holds. -/
def visit (t : RoutingTable) (guard : Bool) (bucketIndex : Nat)
    (result : FixedVec NodeContactInfo) : Option (FixedVec NodeContactInfo) :=
  if guard then t.takeFrom bucketIndex result else some result

/-- The loop of `find` over the buckets around the one of the prefix. -/
def findLoop (t : RoutingTable) (bucketIndex offset : Nat) (result : FixedVec NodeContactInfo) :
    Option (FixedVec NodeContactInfo) :=
  if result.isNotFull ∧ (bucketIndex ≥ offset ∨ bucketIndex + offset < t.buckets.length) then do
    let result ← t.visit (bucketIndex ≥ offset) (bucketIndex - offset) result
    let result ←
      t.visit (bucketIndex + offset < t.buckets.length ∧ result.isNotFull) (bucketIndex + offset)
        result
    findLoop t bucketIndex (offset + 1) result
  else some result
termination_by bucketIndex + t.buckets.length + 1 - offset
decreasing_by omega

/-- The node with the id, or nodes of buckets around the one of its prefix length. -/
def find (t : RoutingTable) (nodeId : NodeId) : Option NodeMatch := do
  let prefixLen := commonPrefixLength t.referenceId nodeId
  let (bucket, bucketIndex) ← t.findBucket prefixLen
  let entries ← bucket.entries.asSlice
  match ← findInBucket nodeId entries FixedVec.new with
  | .exact node => return .exact node
  | .closest result => return .closest (← t.findLoop bucketIndex 1 result)

/-! ## Update -/

/-- Write to the bucket at an index. -/
def setBucket (t : RoutingTable) (bucketIndex : Nat) (bucket : Bucket) : RoutingTable :=
  { t with buckets := t.buckets.set bucketIndex bucket }

/-- `self.buckets.insert(bucket_index, bucket)` panics past the end. -/
def insertBucket (t : RoutingTable) (bucketIndex : Nat) (bucket : Bucket) : Option RoutingTable :=
  if bucketIndex ≤ t.buckets.length then
    some { t with buckets := t.buckets.insertIdx bucketIndex bucket }
  else none

/-- The loop that moves the entries within the upper bounds out of a bucket. -/
def drainUpperNodes (referenceId : NodeId) (upperBounds : Range Nat)
    (entries drainedUpperNodes : FixedVec RoutingEntry) (i : Nat) :
    Option (FixedVec RoutingEntry × FixedVec RoutingEntry) :=
  if i ≠ entries.length then
    match _inside : entries.index i with
    | none => none
    | some entry =>
        if upperBounds.contains (commonPrefixLength referenceId entry.node.id) then
          match _removed : entries.swapRemove i with
          | none => none
          | some (entry, entries) =>
              match drainedUpperNodes.push entry with
              | none => none
              | some drainedUpperNodes =>
                  drainUpperNodes referenceId upperBounds entries drainedUpperNodes i
        else drainUpperNodes referenceId upperBounds entries drainedUpperNodes (i + 1)
  else some (entries, drainedUpperNodes)
termination_by entries.length - i
decreasing_by
  · obtain ⟨inside, shorter⟩ := FixedVec.swapRemove_length _removed
    omega
  · have inside := FixedVec.index_lt _inside
    omega

/-- Case 3 of `update`: the bucket is split at its first prefix length, unless
the half of the new entry is full. -/
def splitBucket (t : RoutingTable) (bucket : Bucket) (bucketIndex prefixLen : Nat)
    (newEntry : RoutingEntry) : Option RoutingTable := do
  let lowerBounds : Range Nat := ⟨bucket.bounds.start, bucket.bounds.start + 1⟩
  let upperBounds : Range Nat := ⟨bucket.bounds.start + 1, bucket.bounds.stop⟩
  let (entries, drainedUpperNodes) ←
    drainUpperNodes t.referenceId upperBounds bucket.entries FixedVec.new 0
  let lowerHasSlot := entries.isNotFull
  let upperHasSlot := drainedUpperNodes.isNotFull
  if lowerHasSlot ∧ lowerBounds.contains prefixLen then
    let upperEntries ← (Bucket.new upperBounds).entries.append drainedUpperNodes
    let entries ← entries.push newEntry
    (t.setBucket bucketIndex ⟨entries, lowerBounds⟩).insertBucket (bucketIndex + 1)
      ⟨upperEntries, upperBounds⟩
  else if upperHasSlot ∧ upperBounds.contains prefixLen then
    let upperEntries ← (Bucket.new upperBounds).entries.append drainedUpperNodes
    let upperEntries ← upperEntries.push newEntry
    (t.setBucket bucketIndex ⟨entries, lowerBounds⟩).insertBucket (bucketIndex + 1)
      ⟨upperEntries, upperBounds⟩
  else
    -- no split: the drained entries go back
    let entries ← entries.append drainedUpperNodes
    return t.setBucket bucketIndex { bucket with entries := entries }

/-- An entry with the id is updated.  A new node is pushed, replaces the first bad
entry of a full bucket, or else divides the bucket, if it can. -/
def update (t : RoutingTable) (node : NodeContactInfo) (seenIn : SeenIn) (now : Instant) :
    Option RoutingTable := do
  if t.buckets.isEmpty then none
  let prefixLen := commonPrefixLength t.referenceId node.id
  let (bucket, bucketIndex) ← t.findBucket prefixLen
  let entries ← bucket.entries.asSlice
  match entries.findIdx? fun entry => entry.node.id = node.id with
  | some entryPosition =>
      let entry ← bucket.entries.index entryPosition
      let entries ← bucket.entries.indexMut entryPosition (entry.update seenIn now)
      return t.setBucket bucketIndex { bucket with entries := entries }
  | none =>
      let newEntry := (RoutingEntry.new node).update seenIn now
      if bucket.entries.isNotFull then
        let entries ← bucket.entries.push newEntry
        return t.setBucket bucketIndex { bucket with entries := entries }
      match entries.findIdx? fun entry => entry.rating now = .bad with
      | some badNode =>
          let entries ← bucket.entries.indexMut badNode newEntry
          return t.setBucket bucketIndex { bucket with entries := entries }
      | none =>
          if bucket.bounds.stop - bucket.bounds.start > 1 then
            t.splitBucket bucket bucketIndex prefixLen newEntry
          else
            return t

end RoutingTable

end MainlineDht.Rust
