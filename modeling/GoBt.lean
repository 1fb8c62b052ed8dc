import GoBt.Lib.Runs
import GoBt.Lib.Act
import GoBt.Lib.BigEndian
import GoBt.Lib.Slice
import GoBt.Lib.GoMap
import GoBt.Lib.Nearest
import GoBt.Lib.Distinct
import GoBt.Lib.Stream
import GoBt.Lib.Lockstep
import GoBt.Lib.Blocks
import GoBt.Lib.Segments
import GoBt.Lib.Tiling
import GoBt.Lib.Ranges
import GoBt.Lib.Window
import GoBt.Lib.Threads
import GoBt.Lib.Duplex
import GoBt.Lib.Locks
import GoBt.Go.Basic
import GoBt.Go.Numerals
import GoBt.Go.Filepath
import GoBt.Go.Strconv
import GoBt.Go.Encoding
import GoBt.Go.Query
import GoBt.Bencode.Value
import GoBt.Bencode.Decode
import GoBt.Bencode.Encode
import GoBt.Bencode.Grammar
import GoBt.Bencode.RoundTrip
import GoBt.Bencode.Generic
import GoBt.Bencode.Ordered
import GoBt.Bencode.Types
import GoBt.Bencode.Accept
import GoBt.Bencode.Raw
import GoBt.Bencode.Refusal
import GoBt.Bencode.Output
import GoBt.Metainfo.Hash
import GoBt.Metainfo.Info
import GoBt.Metainfo.FilePieces
import GoBt.Metainfo.Merge
import GoBt.Metainfo.Storage
import GoBt.Metainfo.FlatStorage
import GoBt.Metainfo.Containment
import GoBt.Metainfo.Pieces
import GoBt.Metainfo.MetaInfo
import GoBt.Metainfo.Reload
import GoBt.Krpc.Addr
import GoBt.Krpc.AddrText
import GoBt.Krpc.ParseIP
import GoBt.Metainfo.CompactAddr
import GoBt.Metainfo.Compact
import GoBt.Metainfo.HashString
import GoBt.Metainfo.Magnet
import GoBt.Krpc.Message
import GoBt.Krpc.Codec
import GoBt.Krpc.CompactLists
import GoBt.Krpc.RoundTrip
import GoBt.Krpc.Encoding
import GoBt.Dht.Distance
import GoBt.Dht.Bucket
import GoBt.Dht.RoutingTable
import GoBt.Dht.Persistence
import GoBt.Dht.Closest
import GoBt.Dht.TokenManager
import GoBt.Dht.PeerManager
import GoBt.Dht.TransactionManager
import GoBt.Dht.Server
import GoBt.Dht.ServerRuns
import GoBt.Dht.Histories
import GoBt.Dht.Announce
import GoBt.Dht.FindNode
import GoBt.Dht.Delivery
import GoBt.Dht.Completion
import GoBt.Dht.Reentrancy
import GoBt.Dht.Values
import GoBt.Dht.Families
import GoBt.Dht.Provenance
import GoBt.Dht.Blacklist
import GoBt.Dht.Search
import GoBt.Dht.Exploration
import GoBt.Dht.Outgoing
import GoBt.PeerProtocol.Message
import GoBt.PeerProtocol.Framing
import GoBt.PeerProtocol.Extension
import GoBt.PeerProtocol.UtMetadata
import GoBt.PeerProtocol.Handshake
import GoBt.PeerProtocol.Pieces
import GoBt.PeerProtocol.BitField
import GoBt.PeerProtocol.FastSet
import GoBt.PeerProtocol.ExtendedHandshake
import GoBt.PeerProtocol.HandshakeCodec
import GoBt.PeerProtocol.PeerConn
import GoBt.PeerProtocol.ServerLoop
import GoBt.PeerProtocol.ExtendedRuns
import GoBt.Downloader.Torrent
import GoBt.Downloader.Completeness
import GoBt.Downloader.Integrity
import GoBt.Downloader.BlockHandler
import GoBt.Tracker.HttpWire
import GoBt.Tracker.HttpPeers
import GoBt.Tracker.HttpQuery
import GoBt.Tracker.HttpScrape
import GoBt.Tracker.UdpWire
import GoBt.Tracker.UdpServer
import GoBt.Tracker.UdpConnections
import GoBt.Tracker.UdpClient
import GoBt.Tracker.UdpClientRuns
import GoBt.Tracker.UdpAnnounce
import GoBt.Tracker.UdpExtensions
import GoBt.Tracker.Agreement
import GoBt.Tracker.UdpReplies
