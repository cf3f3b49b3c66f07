import Netlib.Lib.Run
import Netlib.Lib.Storage
import Netlib.Lib.BatchQueue
import Netlib.Net.Buffer
import Netlib.Net.BufferSpec
import Netlib.Net.BufferQueue
import Netlib.Net.EventLoop
import Netlib.Net.EventLoopThread
import Netlib.Base.LogStream
import Netlib.Base.AsyncLogging
import Netlib.Lib.OrdSet
import Netlib.Net.TimerQueue
import Netlib.Net.Chnnel
import Netlib.Net.TcpConnection
import Netlib.Net.TcpOutput
import Netlib.Net.TcpHalfClose
import Netlib.Net.TcpClose
import Netlib.Base.AsyncBatches
import Netlib.Net.Epoller
import Netlib.Net.TimerSteps
import Netlib.Net.TimerFiring
import Netlib.Net.TimerArming
import Netlib.Net.TimerThreads
import Netlib.Net.Connector
import Netlib.Net.ConnectorRuns
import Netlib.Net.TcpDestroy
import Netlib.Lib.CInt
import Netlib.Lib.Gregorian
import Netlib.Base.Date
import Netlib.Base.UtcTime
import Netlib.Lib.Bisect
import Netlib.Base.TimeZone
import Netlib.Lib.Wire
import Netlib.Base.ZoneFile
import Netlib.Net.ConnectorStop
import Netlib.Net.TcpClient
import Netlib.Net.TcpForward
import Netlib.Net.TcpOrderly
import Netlib.Net.SockAddr
import Netlib.Net.TcpServer
import Netlib.Net.ServerTable
import Netlib.Net.BufferRead
import Netlib.Net.BufferStorage
import Netlib.Lib.BigEndian
import Netlib.Net.BufferIndices
import Netlib.Net.BufferCodec
import Netlib.Net.LoopChnnels
import Netlib.Net.TimerStale
import Netlib.Net.TcpReading
import Netlib.Net.TcpCallbacks
import Netlib.Lib.FdTable
import Netlib.Net.Acceptor
import Netlib.Lib.Numeral
import Netlib.Base.Time
import Netlib.Base.Convert
import Netlib.Base.LogInsert
import Netlib.Base.LogTime
import Netlib.Base.Logging
import Netlib.Base.AppendFile
import Netlib.Base.LogFile
import Netlib.Base.AsyncBuffers
import Netlib.Net.LoopDispatch
import Netlib.Net.TcpBuffers
import Netlib.Net.EchoServer
import Netlib.Base.LogPipeline
import Netlib.Lib.Monitor
import Netlib.Base.Mutex
import Netlib.Base.CountDownLatch
import Netlib.Base.Thread
import Netlib.Net.ServerTeardown
import Netlib.Lib.FixedWidth
import Netlib.Base.TimeText
import Netlib.Base.LogStamps
import Netlib.Base.LogNames
import Netlib.Lib.Periodic
import Netlib.Net.TimerSpacing
import Netlib.Lib.Backoff
import Netlib.Net.ConnectorBackoff
import Netlib.Lib.CNumeral
import Netlib.Net.AddrText
import Netlib.Net.EchoClient
