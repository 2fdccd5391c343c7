import FreePacket.Lib.Machine
import FreePacket.Lib.Memory
import FreePacket.Lib.Ring
import FreePacket.Lib.Fifo
import FreePacket.Queue.Intel
import FreePacket.Queue.Refinement
import FreePacket.Queue.Concurrent
import FreePacket.Queue.Tmc
import FreePacket.ConfigFile.Record
import FreePacket.Lib.CString
import FreePacket.ConfigFile.Reader
import FreePacket.ConfigFile.Reload
import FreePacket.ConfigFile.Grammar
import FreePacket.Packet.Frame
import FreePacket.Packet.Key
import FreePacket.Packet.Collector
import FreePacket.Packet.Generate
import FreePacket.Packet.RoundTrip
import FreePacket.Lib.Tally
import FreePacket.Lib.Cycle
import FreePacket.Session.Hash
import FreePacket.Session.Table
import FreePacket.Session.Conservation
import FreePacket.Session.Stage
import FreePacket.Session.Merge
import FreePacket.Session.Buffer
import FreePacket.Session.Reassembly
import FreePacket.Session.Map
import FreePacket.Session.Threads
import FreePacket.Session.Deadlock
import FreePacket.Pipeline.Model
import FreePacket.Pipeline.Steps
import FreePacket.Pipeline.Ownership
import FreePacket.Pipeline.Accounting
import FreePacket.Pipeline.Conservation
import FreePacket.Pipeline.Batch
import FreePacket.Pipeline.Events
import FreePacket.Pipeline.RoundRobin
import FreePacket.Pipeline.Order
import FreePacket.Pipeline.Arrival
import FreePacket.Stats.Stream
import FreePacket.Lib.Keyed
import FreePacket.Lib.Links
import FreePacket.Session.ListHead
import FreePacket.Session.Expiry
import FreePacket.Packet.Datagram
import FreePacket.Pipeline.Parsing
import FreePacket.Generator.Rewrite
import FreePacket.Pipeline.Everywhere
import FreePacket.Generator.Recycle
import FreePacket.Generator.Connections
import FreePacket.ConfigFile.RangeLine
import FreePacket.Generator.Payload
import FreePacket.Session.Bounds
import FreePacket.Checksum.Crc
import FreePacket.Checksum.Internet
import FreePacket.Checksum.Tilera
import FreePacket.Lib.HexNumber
import FreePacket.ConfigFile.MacText
import FreePacket.Stats.Handshake
import FreePacket.Session.ListRuns
import FreePacket.Lib.Atomic
import FreePacket.Queue.Shared
import FreePacket.Lib.Client
import FreePacket.Session.Serial
import FreePacket.Session.Heap
import FreePacket.Session.Store
import FreePacket.Pipeline.Drain
import FreePacket.Generator.EndToEnd
import FreePacket.Generator.Progress
import FreePacket.Pipeline.Delivery
import FreePacket.ConfigFile.Startup
import FreePacket.Lib.Getopt
import FreePacket.Stats.Display
import FreePacket.Pipeline.Boot
import FreePacket.Pipeline.Rings
import FreePacket.Queue.Counters
import FreePacket.Pipeline.ShortRuns
