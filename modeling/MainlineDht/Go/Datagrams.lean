import MainlineDht.Go.BencodeLanguage
import MainlineDht.Go.QueryHandling

/-!
# Which datagrams are messages

The receive loop reads one dictionary at the front of a datagram and makes a
message of what it finds under the keys.  So a datagram is a message up to the
order of its keys, up to other keys, and up to whatever follows the dictionary.
-/

namespace MainlineDht.Go

open Effect Ordered Text Bencode

/-- A datagram is received as a message exactly if it begins with a dictionary
that agrees with the message. -/
theorem received_iff_derives (datagram : Bytes) (fits : datagram.length < 2 ^ 63)
    (m : KrpcMessage) : received datagram = some (some m) ↔
      ∃ n d, n ≤ datagram.length ∧ Derives dialect (.value (.dict d)) (datagram.take n) ∧
        m.Agrees d := by
  rw [received_eq_some]
  constructor
  · rintro ⟨d, final, readDict, readMessage⟩
    rcases (decodeBencodeDict_returns_iff datagram fits d).mp ⟨final, readDict⟩ with
      ⟨n, upTo, derives⟩
    exact ⟨n, d, upTo, derives, KrpcMessage.decode_iff_agrees.mp readMessage⟩
  · rintro ⟨n, d, upTo, derives, agrees⟩
    rcases (decodeBencodeDict_returns_iff datagram fits d).mpr ⟨n, upTo, derives⟩ with
      ⟨final, readDict⟩
    exact ⟨d, final, readDict, KrpcMessage.decode_iff_agrees.mpr agrees⟩

/-- `d1:y1:r1:t1:a1:rdee` and a newline: an empty response. -/
theorem received_iff_derives_response :
    received [100, 49, 58, 121, 49, 58, 114, 49, 58, 116, 49, 58, 97, 49, 58, 114, 100, 101, 101, 10] =
      some (some (.response { transactionId := [97], returnValues := [] })) := by
  apply (received_iff_derives _ (by decide +kernel) _).mpr
  have one : dialect.len [49] 1 :=
    ⟨.plain ⟨by decide, List.all_eq_true.mp rfl, rfl⟩, by decide +kernel⟩
  have values := @Derives.entry dialect [49] keyR _ _ _ _ one (.dict .noEntries) .noEntries
  have id := @Derives.entry dialect [49] keyT _ _ _ _ one (@Derives.bytes dialect [49] [97] one) values
  have kind := @Derives.entry dialect [49] keyY _ _ _ _ one (@Derives.bytes dialect [49] [114] one) id
  refine ⟨19, _, by decide, .dict kind, ?_⟩
  simp only [KrpcMessage.Agrees, KrpcMessage.keys, List.forall_mem_cons]
  exact ⟨rfl, rfl, rfl, List.forall_mem_nil _⟩

end MainlineDht.Go
