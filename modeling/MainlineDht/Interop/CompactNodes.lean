import MainlineDht.Go.CompactNodeInfo
import MainlineDht.Rust.FindNodeResponse

/-!
# The nodes of a response in the two programs

The Go program writes a node in 26 bytes, an id, an address and a port.  The
Rust node reads the nodes of a response twenty bytes at a time: its ids are
those of the records only while the pieces start with the records, and what is
left at the end is dropped.
-/

namespace MainlineDht.Interop

open NodeId Sequence

/-- The nodes of a response are read as the records of the compact form. -/
structure ReadsCompactNodes (dict : Rust.Dict) (nodes : Bytes) : Prop where
  complete : ∀ infos : List Go.NodeInfo, (∀ info ∈ infos, Go.Compactable info) →
    nodes = infos.flatMap Go.compactNodeInfo →
      ∃ response, Rust.FindNodeResponse.fromBencode dict = .ok response ∧
        response.nodeIds = infos.map Go.NodeInfo.nodeId
  rejects : ¬ 26 ∣ nodes.length → ∃ error, Rust.FindNodeResponse.fromBencode dict = .error error

/-- Whole records, no more of them than there are pieces, and each piece is what
the record at its place starts with. -/
structure Aligned (nodes : Bytes) : Prop where
  whole : 26 ∣ nodes.length
  few : nodes.length ≤ 78
  starts : ∀ index < nodes.length / 26, chunkAt 20 nodes index = (chunkAt 26 nodes index).take 20

/-- Aligned bytes are those of which the pieces are the starts of the records. -/
theorem aligned_iff_chunksExact {nodes : Bytes} (whole : 26 ∣ nodes.length) :
    Aligned nodes ↔ chunksExact 20 nodes = (chunksExact 26 nodes).map (List.take 20) := by
  constructor
  · intro aligned
    have few := aligned.few
    have count : nodes.length / 20 = nodes.length / 26 := by omega
    rw [chunksExact, chunksExact, List.map_map, count]
    exact List.map_congr_left fun index below => aligned.starts index (List.mem_range.mp below)
  · intro same
    have count : nodes.length / 20 = nodes.length / 26 := by
      have lengths := congrArg List.length same
      rwa [List.length_map, length_chunksExact, length_chunksExact] at lengths
    rw [chunksExact, chunksExact, List.map_map, count] at same
    exact {
      whole := whole
      few := by omega
      starts := fun index below => List.map_inj_left.mp same index (List.mem_range.mpr below) }

/-- Whole records are the compact forms of some nodes. -/
theorem exists_compactNodes {nodes : Bytes} (whole : 26 ∣ nodes.length) :
    ∃ infos : List Go.NodeInfo, (∀ info ∈ infos, Go.Compactable info) ∧
      nodes = infos.flatMap Go.compactNodeInfo := by
  have records : ∀ record ∈ chunksExact 26 nodes,
      ∃ info, Go.Compactable info ∧ Go.compactNodeInfo info = record := by
    intro record member
    let contact := Go.Contact.compact.symm ⟨record, length_of_mem_chunksExact member⟩
    refine ⟨contact.info, contact.compactable_info, ?_⟩
    rw [contact.compactNodeInfo_info, Equiv.apply_symm_apply]
  have joined : (chunksExact 26 nodes).flatten = nodes := flatten_chunksExact (by decide) whole
  generalize chunksExact 26 nodes = chunks at records joined
  subst joined
  clear whole
  induction chunks with
  | nil => exact ⟨[], fun _ member => absurd member List.not_mem_nil, rfl⟩
  | cons record chunks ih =>
      rcases List.forall_mem_cons.mp records with ⟨⟨info, compactable, rfl⟩, others⟩
      rcases ih others with ⟨infos, all, infos_eq⟩
      refine ⟨info :: infos, List.forall_mem_cons.mpr ⟨compactable, all⟩, ?_⟩
      rw [List.flatten_cons, List.flatMap_cons, infos_eq]

/-- The ids of some nodes are what the records of their compact forms start with. -/
theorem map_take_chunksExact {infos : List Go.NodeInfo}
    (compactable : ∀ info ∈ infos, Go.Compactable info) :
    (chunksExact 26 (infos.flatMap Go.compactNodeInfo)).map (List.take 20) =
      (infos.map Go.NodeInfo.nodeId).map Subtype.val := by
  rw [chunksExact_flatMap (by decide) fun info member => (compactable info member).length,
    List.map_map, List.map_map]
  exact List.map_congr_left fun info _ => Go.take_compactNodeInfo info

/-- The Rust node reads the nodes of a valid response as the Go program writes
them exactly if they are aligned. -/
theorem readsCompactNodes_iff_aligned {dict : Rust.Dict} {nodes : Bytes}
    (valid : Rust.IsFindNodeResponse dict nodes) :
    ReadsCompactNodes dict nodes ↔ Aligned nodes := by
  rcases valid.fromBencode with ⟨response, read, ids_eq⟩
  constructor
  · intro reads
    have whole : 26 ∣ nodes.length := by
      by_contra broken
      rcases reads.rejects broken with ⟨error, refused⟩
      cases read.symm.trans refused
    rcases exists_compactNodes whole with ⟨infos, compactable, rfl⟩
    rcases reads.complete infos compactable rfl with ⟨other, readOther, others_eq⟩
    cases read.symm.trans readOther
    rw [aligned_iff_chunksExact whole, ← ids_eq, others_eq, map_take_chunksExact compactable]
  · intro aligned
    constructor
    · rintro infos compactable rfl
      refine ⟨response, read, List.map_injective_iff.mpr Subtype.val_injective ?_⟩
      rw [ids_eq, (aligned_iff_chunksExact aligned.whole).mp aligned,
        map_take_chunksExact compactable]
    · intro broken
      exact absurd aligned.whole broken

/-- A response with the nodes that are given. -/
def responseOf (nodes : Bytes) : Rust.Dict :=
  [(Rust.keyR, .dict [(Rust.keyId, .bytes (List.replicate 20 0)), (Rust.keyNodes, .bytes nodes)]),
    (Rust.keyT, .bytes [97, 97])]

theorem isFindNodeResponse_responseOf (nodes : Bytes) :
    Rust.IsFindNodeResponse (responseOf nodes) nodes where
  transactionId := ⟨_, rfl⟩
  returnValues := ⟨_, _, rfl, rfl, rfl, rfl⟩

/-- The only record there is is read. -/
theorem readsCompactNodes_single :
    ReadsCompactNodes (responseOf (List.replicate 26 0)) (List.replicate 26 0) :=
  (readsCompactNodes_iff_aligned (isFindNodeResponse_responseOf _)).mpr
    ⟨by decide, by decide, by decide⟩

/-- Of two records the second is not: its piece starts six bytes early. -/
theorem not_readsCompactNodes_pair :
    ¬ ReadsCompactNodes (responseOf (List.replicate 26 0 ++ List.replicate 26 1))
      (List.replicate 26 0 ++ List.replicate 26 1) := by
  intro reads
  let infos : List Go.NodeInfo :=
    [⟨⟨List.replicate 20 0, rfl⟩, ⟨[0, 0, 0, 0], 0, []⟩⟩,
      ⟨⟨List.replicate 20 1, rfl⟩, ⟨[1, 1, 1, 1], 257, []⟩⟩]
  have compactable : ∀ info ∈ infos, Go.Compactable info := by
    intro info member
    rcases List.mem_cons.mp member with rfl | member
    · exact ⟨rfl, by decide⟩
    · cases List.mem_singleton.mp member
      exact ⟨rfl, by decide⟩
  rcases reads.complete infos compactable rfl with ⟨response, read, ids_eq⟩
  rcases (isFindNodeResponse_responseOf _).fromBencode with ⟨other, readOther, others_eq⟩
  cases read.symm.trans readOther
  rw [ids_eq] at others_eq
  exact absurd others_eq (by decide)

end MainlineDht.Interop
