import MainlineDht.Bencode.Value
import MainlineDht.Rust.NodeId
import MainlineDht.Text.Utf8

/-!
# The find_node response of the Rust node

`FindNodeResponse::from_bencode` takes the parts of a response out of its
dictionary one by one.  A `String` is kept as its bytes.
-/

namespace MainlineDht.Rust

open Ordered Sequence Text Bencode

/-- `Dict` -/
abbrev Dict : Type := List (Bytes × Value)

/-- `dict.remove(key)`: the value, and the dictionary without it. -/
def remove (dict : Dict) (key : Bytes) : Option Value × Dict :=
  (Entries.lookup key dict, dict.filter fun entry => entry.1 ≠ key)

/-- The key `t` of the transaction id. -/
def keyT : Bytes := [116]

/-- The key `v` of the client version. -/
def keyV : Bytes := [118]

/-- The key `r` of the return values. -/
def keyR : Bytes := [114]

/-- The key `id` of the responder. -/
def keyId : Bytes := [105, 100]

/-- The key `nodes` of the nodes that were found. -/
def keyNodes : Bytes := [110, 111, 100, 101, 115]

/-- A response to `find_node`. -/
structure FindNodeResponse where
  transactionId : Bytes
  clientVersion : Option Bytes
  responderId : NodeId
  nodeIds : List NodeId

/-- `Some(Bencode::Bytes(v)) => v`, any other value is an error. -/
def expectBytes (value : Option Value) (error : String) : Except String Bytes :=
  match value with
  | some (.bytes v) => .ok v
  | _ => .error error

/-- `Some(Bencode::Dict(v)) => v`, any other value is an error. -/
def expectDict (value : Option Value) (error : String) : Except String Dict :=
  match value with
  | some (.dict v) => .ok v
  | _ => .error error

/-- The client version is optional, and one of another type is left out. -/
def lossyVersion (value : Option Value) : Option Bytes :=
  match value with
  | some (.bytes v) => some (Utf8.lossy v)
  | _ => none

/-- The response of a dictionary, or the first error: the fields are taken out of
it one by one. -/
def FindNodeResponse.fromBencode (dict : Dict) : Except String FindNodeResponse := do
  let (value, dict) := remove dict keyT
  let transactionId ← expectBytes value "No or invalid transaction id"
  let (value, dict) := remove dict keyV
  let clientVersion := lossyVersion value
  let (value, _) := remove dict keyR
  let returnValues ← expectDict value "No or invalid return value dict"
  let (value, returnValues) := remove returnValues keyId
  let responderId ← fromVec (← expectBytes value "No or invalid responder id")
  let (value, _) := remove returnValues keyNodes
  let nodeIds ← multipleFromVec (← expectBytes value "No or invalid node ids")
  return {
    transactionId := transactionId
    clientVersion := clientVersion
    responderId := responderId
    nodeIds := nodeIds }

@[simp]
theorem remove_fst (dict : Dict) (key : Bytes) : (remove dict key).1 = Entries.lookup key dict :=
  rfl

/-- Removing a key leaves the others alone. -/
theorem lookup_remove {dict : Dict} {key other : Bytes} (differ : other ≠ key) :
    Entries.lookup other (remove dict key).2 = Entries.lookup other dict := by
  rw [remove, Entries.lookup_filter fun name => decide (name ≠ key)]
  rw [if_pos (decide_eq_true differ)]

/-- The dictionary is a valid response, with the byte string under `nodes`. -/
structure IsFindNodeResponse (dict : Dict) (nodes : Bytes) : Prop where
  transactionId : ∃ v, Entries.lookup keyT dict = some (.bytes v)
  returnValues : ∃ values id, Entries.lookup keyR dict = some (.dict values) ∧
    Entries.lookup keyId values = some (.bytes id) ∧ id.length = 20 ∧
      Entries.lookup keyNodes values = some (.bytes nodes)

/-- A valid response is read whatever its nodes are, in pieces of twenty bytes. -/
theorem IsFindNodeResponse.fromBencode {dict : Dict} {nodes : Bytes}
    (valid : IsFindNodeResponse dict nodes) :
    ∃ response, FindNodeResponse.fromBencode dict = .ok response ∧
      response.nodeIds.map Subtype.val = chunksExact 20 nodes := by
  rcases valid.transactionId with ⟨transactionId, hasId⟩
  rcases valid.returnValues with ⟨values, id, hasValues, hasResponder, length, hasNodes⟩
  rcases multipleFromVec_eq nodes with ⟨ids, read, ids_eq⟩
  have values_eq : Entries.lookup keyR (remove (remove dict keyT).2 keyV).2 = some (.dict values) := by
    rw [lookup_remove (by decide), lookup_remove (by decide), hasValues]
  have nodes_eq : Entries.lookup keyNodes (remove values keyId).2 = some (.bytes nodes) := by
    rw [lookup_remove (by decide), hasNodes]
  have responder : fromVec id = .ok ⟨id, length⟩ := fromSlice_eq length
  refine ⟨⟨transactionId, lossyVersion (remove (remove dict keyT).2 keyV).1, ⟨id, length⟩, ids⟩,
    ?_, ids_eq⟩
  simp only [FindNodeResponse.fromBencode, remove_fst, hasId, values_eq, hasResponder, nodes_eq,
    expectBytes, expectDict, responder, read, bind, Except.bind, pure, Except.pure]

end MainlineDht.Rust
