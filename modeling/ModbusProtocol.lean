import ModbusProtocol.Data.Mem
import ModbusProtocol.Data.Object
import ModbusProtocol.Data.Bits
import ModbusProtocol.Data.Scan
import ModbusProtocol.Data.Ledger
import ModbusProtocol.Data.Lifecycle
import ModbusProtocol.Data.Records
import ModbusProtocol.Data.Lfsr
import ModbusProtocol.Data.Remainder
import ModbusProtocol.Data.Mutex
import ModbusProtocol.Defines
import ModbusProtocol.Pdu.Impl.Codec
import ModbusProtocol.Pdu.Impl.Dispatch
import ModbusProtocol.Pdu.Impl.Checked
import ModbusProtocol.Pdu.Spec
import ModbusProtocol.Pdu.Operation
import ModbusProtocol.Pdu.Process
import ModbusProtocol.Pdu.Frame
import ModbusProtocol.Pdu.Read
import ModbusProtocol.Pdu.Lemmas.Codec
import ModbusProtocol.Pdu.Lemmas.Dispatch
import ModbusProtocol.Pdu.Lemmas.Validation
import ModbusProtocol.Pdu.Lemmas.Checked
import ModbusProtocol.Pdu.Lemmas.Precedence
import ModbusProtocol.Pdu.Lemmas.Response
import ModbusProtocol.Pdu.Lemmas.Remote
import ModbusProtocol.Pdu.Lemmas.Grammar
import ModbusProtocol.Posix.Line
import ModbusProtocol.Posix.Select
import ModbusProtocol.Posix.Lemmas
import ModbusProtocol.Posix.Timing
import ModbusProtocol.Posix.Schedule
import ModbusProtocol.Posix.Resource
import ModbusProtocol.Rtu.Impl.Crc
import ModbusProtocol.Rtu.Impl.Server
import ModbusProtocol.Rtu.Impl.Frame
import ModbusProtocol.Rtu.Impl.Serial
import ModbusProtocol.Rtu.Impl.Transport
import ModbusProtocol.Rtu.Impl.Bus
import ModbusProtocol.Rtu.Impl.Clients
import ModbusProtocol.Rtu.Impl.Threads
import ModbusProtocol.Rtu.Impl.Client
import ModbusProtocol.Rtu.Impl.Select
import ModbusProtocol.Rtu.Impl.Traffic
import ModbusProtocol.Rtu.Impl.Word
import ModbusProtocol.Rtu.Spec
import ModbusProtocol.Rtu.Lemmas.Crc
import ModbusProtocol.Rtu.Lemmas.Detection
import ModbusProtocol.Rtu.Lemmas.Remainder
import ModbusProtocol.Rtu.Lemmas.Assembly
import ModbusProtocol.Rtu.Lemmas.Server
import ModbusProtocol.Rtu.Lemmas.Request
import ModbusProtocol.Rtu.Lemmas.Timeout
import ModbusProtocol.Rtu.Lemmas.Client
import ModbusProtocol.Rtu.Lemmas.Resync
import ModbusProtocol.Rtu.Lemmas.Accept
import ModbusProtocol.Rtu.Lemmas.Frame
import ModbusProtocol.Rtu.Lemmas.Read
import ModbusProtocol.Rtu.Lemmas.Corruption
import ModbusProtocol.Rtu.Lemmas.Deadline
import ModbusProtocol.Rtu.Lemmas.Registry
import ModbusProtocol.Rtu.Lemmas.Lifecycle
import ModbusProtocol.Rtu.Lemmas.Silence
import ModbusProtocol.Rtu.Lemmas.Select
import ModbusProtocol.Rtu.Lemmas.Word
import ModbusProtocol.Rtu.Lemmas.Stages
import ModbusProtocol.Rtu.Lemmas.References
import ModbusProtocol.Rtu.Lemmas.Phases
import ModbusProtocol.Rtu.Lemmas.Threads
import ModbusProtocol.Tcp.Impl.Server
import ModbusProtocol.Tcp.Impl.Frame
import ModbusProtocol.Tcp.Impl.Thread
import ModbusProtocol.Tcp.Impl.Transport
import ModbusProtocol.Tcp.Impl.Select
import ModbusProtocol.Tcp.Impl.Client
import ModbusProtocol.Tcp.Spec
import ModbusProtocol.Tcp.Lemmas.Server
import ModbusProtocol.Tcp.Lemmas.Client
import ModbusProtocol.Tcp.Lemmas.Read
import ModbusProtocol.Tcp.Lemmas.Replies
import ModbusProtocol.Tcp.Lemmas.Frame
import ModbusProtocol.Tcp.Lemmas.Deadline
import ModbusProtocol.Tcp.Lemmas.Thread
import ModbusProtocol.Tcp.Lemmas.Serving
import ModbusProtocol.Tcp.Lemmas.Slots
import ModbusProtocol.Tcp.Lemmas.Select
import ModbusProtocol.Tcp.Lemmas.Lifecycle
import ModbusProtocol.Tcp.Lemmas.Links
import ModbusProtocol.Transports
import ModbusProtocol.Bounds
import ModbusProtocol.Frames
import ModbusProtocol.Parsers
import ModbusProtocol.Descriptors
import ModbusProtocol.Clients
import ModbusProtocol.Lifecycles
import ModbusProtocol.Rtu.Lemmas.Alone
import ModbusProtocol.Data.Counter
import ModbusProtocol.Data.Rounds
import ModbusProtocol.Pdu.Impl.Packing
import ModbusProtocol.Pdu.Lemmas.Packing
import ModbusProtocol.Rtu.Impl.Checked
import ModbusProtocol.Rtu.Lemmas.Checked
import ModbusProtocol.Rtu.Lemmas.Extraction
import ModbusProtocol.Data.Service
import ModbusProtocol.Data.Serial
import ModbusProtocol.Posix.Wire
import ModbusProtocol.Posix.Awaited
import ModbusProtocol.Pdu.Lemmas.Direct
import ModbusProtocol.Tcp.Host
import ModbusProtocol.Tcp.System
import ModbusProtocol.Tcp.Lemmas.Ends
import ModbusProtocol.Tcp.Lemmas.Host
import ModbusProtocol.Tcp.Lemmas.Joined
import ModbusProtocol.Tcp.Lemmas.System
import ModbusProtocol.Tcp.Lemmas.Timely
import ModbusProtocol.Rtu.Lemmas.Safety
import ModbusProtocol.Rtu.System
import ModbusProtocol.Rtu.Lemmas.Hearing
import ModbusProtocol.Rtu.Lemmas.Query
import ModbusProtocol.Rtu.Lemmas.System
import ModbusProtocol.Data.Store
import ModbusProtocol.Examples.RtuServer
import ModbusProtocol.Tcp.Impl.Connector
import ModbusProtocol.Tcp.Lemmas.Connector
import ModbusProtocol.Pdu.Api
import ModbusProtocol.Tcp.Impl.Api
import ModbusProtocol.Rtu.Impl.Api
import ModbusProtocol.Tcp.Lemmas.Api
import ModbusProtocol.Rtu.Lemmas.Api
import ModbusProtocol.Examples.Bank
import ModbusProtocol.Examples.TcpServer
