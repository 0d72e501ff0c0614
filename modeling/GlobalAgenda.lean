import GlobalAgenda.Base.LittleEndian
import GlobalAgenda.Base.Consumption
import GlobalAgenda.Base.Progress
import GlobalAgenda.Base.WhileLoop
import GlobalAgenda.Base.Chains
import GlobalAgenda.Base.Places
import GlobalAgenda.Base.Runs
import GlobalAgenda.Base.Interleaving
import GlobalAgenda.Base.Codes
import GlobalAgenda.EnumDataTypes
import GlobalAgenda.ValueConverter
import GlobalAgenda.EntryHeader
import GlobalAgenda.DataEntry
import GlobalAgenda.DataSet
import GlobalAgenda.Packet
import GlobalAgenda.TcpPacket
import GlobalAgenda.CursorSafety
import GlobalAgenda.MemoryIndependence
import GlobalAgenda.ParserSpec
import GlobalAgenda.Walk
import GlobalAgenda.ReadSafety
import GlobalAgenda.Termination
import GlobalAgenda.RoundBound
import GlobalAgenda.Client
import GlobalAgenda.Iterators
import GlobalAgenda.WireFormat
import GlobalAgenda.Construction
import GlobalAgenda.Encoding
import GlobalAgenda.Decoding
import GlobalAgenda.BuildSizes
import GlobalAgenda.RoundTrip
import GlobalAgenda.Canonical
import GlobalAgenda.Framing
import GlobalAgenda.ItemCount
import GlobalAgenda.FieldWidths
import GlobalAgenda.BlobLength
import GlobalAgenda.Rebuilding
import GlobalAgenda.AppendOrder
import GlobalAgenda.EmptyEntries
import GlobalAgenda.Connection
import GlobalAgenda.EventLoop
import GlobalAgenda.Reencoding
import GlobalAgenda.EarlyStop
import GlobalAgenda.Numbers
import GlobalAgenda.TypedArguments
import GlobalAgenda.Phantoms
import GlobalAgenda.HeaderInvariant
import GlobalAgenda.StorageBounds
import GlobalAgenda.StoredEntries
import GlobalAgenda.Unambiguous
import GlobalAgenda.Truncation
import GlobalAgenda.Lookup
import GlobalAgenda.Replies
import GlobalAgenda.Responses
import GlobalAgenda.DataTypeParser
import GlobalAgenda.ExtraRow
import GlobalAgenda.AnyFile
import GlobalAgenda.Lossless
import GlobalAgenda.Utils
