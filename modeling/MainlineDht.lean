import MainlineDht.Transition.Core
import MainlineDht.Transition.Network
import MainlineDht.Effect.Traced
import MainlineDht.Ownership.Ledger
import MainlineDht.Ordered.Entries
import MainlineDht.Intervals.Consecutive
import MainlineDht.Sequence.SwapRemove
import MainlineDht.Sequence.Blocks
import MainlineDht.Sequence.Chunks
import MainlineDht.Sequence.Words
import MainlineDht.Sequence.Continuations
import MainlineDht.Text.Decimal
import MainlineDht.Text.Canonical
import MainlineDht.Text.Utf8
import MainlineDht.Text.Hex
import MainlineDht.Prefix.Common
import MainlineDht.Buckets.Reference
import MainlineDht.Buckets.Walk
import MainlineDht.Bencode.Value
import MainlineDht.Bencode.Grammar
import MainlineDht.Bencode.Unambiguous
import MainlineDht.Bencode.Literals
import MainlineDht.Bencode.Canonical
import MainlineDht.NodeId.Bits
import MainlineDht.NodeId.Distance
import MainlineDht.NodeId.Prefixes
import MainlineDht.Go.Scanner
import MainlineDht.Go.ScannerRuns
import MainlineDht.Go.Bencode
import MainlineDht.Go.BencodeRuns
import MainlineDht.Go.BencodeVerdicts
import MainlineDht.Go.BencodeLanguage
import MainlineDht.Go.BencodeSafety
import MainlineDht.Go.RoundTrip
import MainlineDht.Go.NodeInfo
import MainlineDht.Go.HexStrings
import MainlineDht.Go.CompactNodeInfo
import MainlineDht.Go.RoutingTable
import MainlineDht.Go.RoutingTableReference
import MainlineDht.Go.RoutingTableLookup
import MainlineDht.Go.RoutingTableInsertion
import MainlineDht.Go.RoutingTableContents
import MainlineDht.Go.RoutingTableSize
import MainlineDht.Go.RoutingTableSelf
import MainlineDht.Go.RoutingTableProgress
import MainlineDht.Go.KrpcMessage
import MainlineDht.Go.KrpcRoundTrip
import MainlineDht.Go.KrpcRuntime
import MainlineDht.Go.KrpcDelivery
import MainlineDht.Go.KrpcRegistration
import MainlineDht.Go.KrpcLeaks
import MainlineDht.Go.KrpcProvenance
import MainlineDht.Go.DhtClient
import MainlineDht.Go.DhtClientPing
import MainlineDht.Go.QueryHandling
import MainlineDht.Go.Datagrams
import MainlineDht.Go.Host
import MainlineDht.Go.HostProgress
import MainlineDht.Go.HostRuns
import MainlineDht.Rust.Bencode
import MainlineDht.Rust.BencodeRuns
import MainlineDht.Rust.BencodeLanguage
import MainlineDht.Rust.BencodeSafety
import MainlineDht.Rust.RoundTrip
import MainlineDht.Rust.Reencoding
import MainlineDht.Rust.FixedVec
import MainlineDht.Rust.FixedVecOwnership
import MainlineDht.Rust.FixedVecRefinement
import MainlineDht.Rust.NodeId
import MainlineDht.Rust.FindNodeResponse
import MainlineDht.Rust.RoutingTable
import MainlineDht.Rust.RoutingEntryRating
import MainlineDht.Rust.RoutingTableUpdate
import MainlineDht.Rust.RoutingTableInvariant
import MainlineDht.Rust.RoutingTableFind
import MainlineDht.Rust.RoutingTableLearning
import MainlineDht.Rust.RoutingTableFrame
import MainlineDht.Rust.RoutingTableNearest
import MainlineDht.Rust.RoutingTableAnswers
import MainlineDht.Rust.RoutingTableDiscard
import MainlineDht.Rust.RoutingTableHistory
import MainlineDht.Rust.RoutingTableSize
import MainlineDht.Rust.NetLoop
import MainlineDht.Rust.NetLoopRuns
import MainlineDht.Interop.Codecs
import MainlineDht.Interop.Agreement
import MainlineDht.Interop.CompactNodes
import MainlineDht.Interop.PrefixLengths
import MainlineDht.Interop.Requests
import MainlineDht.Interop.Calls
import MainlineDht.Interop.Traffic
import MainlineDht.Interop.Network
import MainlineDht.Interop.NetworkSoundness
import MainlineDht.Interop.NetworkProgress
import MainlineDht.Interop.NetworkSafety
