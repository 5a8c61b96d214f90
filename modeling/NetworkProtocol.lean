import NetworkProtocol.Library.Runs
import NetworkProtocol.Library.Trace
import NetworkProtocol.Library.CString
import NetworkProtocol.Library.CMemory
import NetworkProtocol.Library.Strtok
import NetworkProtocol.Library.ByteStream
import NetworkProtocol.Library.FileTree
import NetworkProtocol.Library.OrderedMap
import NetworkProtocol.Library.CyclicBuffer
import NetworkProtocol.Broker.Model
import NetworkProtocol.Broker.Pass
import NetworkProtocol.Broker.Completeness
import NetworkProtocol.Broker.Delivery
import NetworkProtocol.Broker.Scan
import NetworkProtocol.Broker.CursorBacking
import NetworkProtocol.Broker.WakeUp
import NetworkProtocol.Broker.Noninterference
import NetworkProtocol.Broker.Framing
import NetworkProtocol.Broker.RoundTrip
import NetworkProtocol.Broker.ThreadIdentity
import NetworkProtocol.Broker.PortAllocation
import NetworkProtocol.Broker.Network
import NetworkProtocol.Broker.Replay
import NetworkProtocol.Broker.EndToEnd
import NetworkProtocol.Broker.Departure
import NetworkProtocol.Broker.Healing
import NetworkProtocol.Broker.Liveness
import NetworkProtocol.Broker.Publisher
import NetworkProtocol.Broker.Wiring
import NetworkProtocol.Chat.Ring
import NetworkProtocol.Chat.RingLaw
import NetworkProtocol.Chat.RingDelivery
import NetworkProtocol.Chat.RingRefinement
import NetworkProtocol.Chat.RingRace
import NetworkProtocol.Chat.Agreement
import NetworkProtocol.Chat.Attribution
import NetworkProtocol.Chat.Silence
import NetworkProtocol.Chat.Conversation
import NetworkProtocol.Chat.Wire
import NetworkProtocol.Ftp.Server
import NetworkProtocol.Ftp.Served
import NetworkProtocol.Ftp.WriteSets
import NetworkProtocol.Ftp.Main
import NetworkProtocol.Ftp.Session
import NetworkProtocol.Ftp.DataThread
import NetworkProtocol.Ftp.Discipline
import NetworkProtocol.Ftp.Client
import NetworkProtocol.Ftp.PortText
import NetworkProtocol.Ftp.PortGrammar
import NetworkProtocol.Ftp.AddressDecoding
import NetworkProtocol.Ftp.AddressRange
import NetworkProtocol.Ftp.Listing
import NetworkProtocol.Ftp.FileTransfer
import NetworkProtocol.Ftp.Prompt
import NetworkProtocol.Ftp.Framing
import NetworkProtocol.Ftp.System
import NetworkProtocol.Ftp.Lockstep
import NetworkProtocol.Ftp.ModeAgreement
import NetworkProtocol.Ftp.Rendezvous
import NetworkProtocol.Ftp.ConnectOrder
import NetworkProtocol.Ftp.WorkingDirectory
import NetworkProtocol.Ftp.NameChecking
import NetworkProtocol.Ftp.History
import NetworkProtocol.Ftp.PathComposition
import NetworkProtocol.Ftp.PassivePorts
import NetworkProtocol.Ftp.Buffers
import NetworkProtocol.Ftp.Protocol
import NetworkProtocol.Ftp.Erasure
import NetworkProtocol.Ftp.DataPorts
import NetworkProtocol.Ftp.SamePort
import NetworkProtocol.Ftp.Transfer
import NetworkProtocol.Ftp.SoleThread
import NetworkProtocol.Ftp.Retrieval
import NetworkProtocol.Ftp.Completion
import NetworkProtocol.Ftp.Wire
import NetworkProtocol.Echo.Echoer
import NetworkProtocol.Echo.Stream
