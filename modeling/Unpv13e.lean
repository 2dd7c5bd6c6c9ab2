import Unpv13e.Base.Area
import Unpv13e.Base.Binary64
import Unpv13e.Base.Buffer
import Unpv13e.Base.Count
import Unpv13e.Base.Countdown
import Unpv13e.Base.Deck
import Unpv13e.Base.Descriptors
import Unpv13e.Base.Fields
import Unpv13e.Base.Ledger
import Unpv13e.Base.LineLoop
import Unpv13e.Base.Lines
import Unpv13e.Base.Memory
import Unpv13e.Base.Numeral
import Unpv13e.Base.OnesComplement
import Unpv13e.Base.Progress
import Unpv13e.Base.Queue
import Unpv13e.Base.Reads
import Unpv13e.Base.Ring
import Unpv13e.Base.Runs
import Unpv13e.Base.Slots
import Unpv13e.Base.Sscanf
import Unpv13e.Base.Tally
import Unpv13e.Base.Text
import Unpv13e.Base.Weights
import Unpv13e.Bcast.Alarm
import Unpv13e.Bcast.Interrupt
import Unpv13e.Bcast.Jump
import Unpv13e.Bcast.Pipe
import Unpv13e.Bcast.Pselect
import Unpv13e.Chat.Relay
import Unpv13e.Chat.Room
import Unpv13e.Client.CardChoice
import Unpv13e.Client.CardInput
import Unpv13e.Client.Counters
import Unpv13e.Client.Followed
import Unpv13e.Client.Framing
import Unpv13e.Client.KeepsUp
import Unpv13e.Client.Match
import Unpv13e.Client.Reader
import Unpv13e.Client.RoomView
import Unpv13e.Client.RoundLine
import Unpv13e.Client.Rounds
import Unpv13e.Client.View
import Unpv13e.Echo.LockStep
import Unpv13e.Echo.Nonblock
import Unpv13e.Echo.Select
import Unpv13e.Echo.System
import Unpv13e.Echo.TwoFlows
import Unpv13e.Echo.Waits
import Unpv13e.Grading.Registry
import Unpv13e.Icmpd.Bounds
import Unpv13e.Icmpd.Daemon
import Unpv13e.Icmpd.Delivery
import Unpv13e.Icmpd.Message
import Unpv13e.Icmpd.Range
import Unpv13e.Ipopts.SourceRoute
import Unpv13e.Key.PrintSadbMsg
import Unpv13e.Key.SadbAdd
import Unpv13e.Lib.GetIfiInfo
import Unpv13e.Lib.LineBuf
import Unpv13e.Lib.Readline
import Unpv13e.Lib.Readline1
import Unpv13e.Lib.ReadlineR
import Unpv13e.Lib.Readn
import Unpv13e.Libfree.Getaddrinfo
import Unpv13e.Libfree.InCksum
import Unpv13e.Libfree.InetAton
import Unpv13e.Libfree.InetPton
import Unpv13e.Libfree.InetPton6
import Unpv13e.Libfree.RoundTrip
import Unpv13e.Libgai.Errors
import Unpv13e.Libgai.Getaddrinfo
import Unpv13e.Libgai.InetNtop
import Unpv13e.Libgai.Ports
import Unpv13e.Libgai.RoundTrip
import Unpv13e.Libroute.IfNames
import Unpv13e.Nonblock.StrCli
import Unpv13e.Nonblock.Streams
import Unpv13e.Nonblock.WebClient
import Unpv13e.Pool.Dispatch
import Unpv13e.Pool.Prefork
import Unpv13e.Pool.Prethread
import Unpv13e.Rtt.DgSendRecv
import Unpv13e.Rtt.Rto
import Unpv13e.Sctp.Pdapi
import Unpv13e.Select.TcpServPoll
import Unpv13e.Select.TcpServSelect
import Unpv13e.Server.Attribution
import Unpv13e.Server.Custody
import Unpv13e.Server.Hall
import Unpv13e.Server.Headcount
import Unpv13e.Server.Matching
import Unpv13e.Server.NameField
import Unpv13e.Server.Names
import Unpv13e.Server.Occupancy
import Unpv13e.Server.Owner
import Unpv13e.Server.PlayerList
import Unpv13e.Server.Recycle
import Unpv13e.Server.RoomLines
import Unpv13e.Server.Rooms
import Unpv13e.Server.Steps
import Unpv13e.Server.Stranded
import Unpv13e.Sigio.DgEcho
import Unpv13e.Sigio.Overflow
import Unpv13e.Sock.Crlf
import Unpv13e.Sock.SourceRoute
import Unpv13e.Sock.Write
import Unpv13e.Ssntp.SntpProc
import Unpv13e.Tcpcliserv.SigChld
import Unpv13e.Threads.Completions
import Unpv13e.Threads.Counter
import Unpv13e.Threads.Deadlock
import Unpv13e.Threads.ProduceConsume
import Unpv13e.Threads.Web
import Unpv13e.Threads.Web02
import Unpv13e.Traceroute.Recv
import Unpv13e.Udpcksum.UdpRead
import Unpv13e.Udpcksum.UdpWrite
import Unpv13e.Uno.Alive
import Unpv13e.Uno.Calls
import Unpv13e.Uno.Cards
import Unpv13e.Uno.Catches
import Unpv13e.Uno.Conservation
import Unpv13e.Uno.Departure
import Unpv13e.Uno.Dismissal
import Unpv13e.Uno.GameStart
import Unpv13e.Uno.Misplay
import Unpv13e.Uno.Moves
import Unpv13e.Uno.Opening
import Unpv13e.Uno.Score
import Unpv13e.Uno.Shuffle
import Unpv13e.Uno.Supply
import Unpv13e.Uno.Table
import Unpv13e.Uno.Turns
