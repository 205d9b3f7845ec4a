import Smoll.Lib.Sched
import Smoll.Lib.Pipe
import Smoll.Bank.Transport
import Smoll.Bank.Commute
import Smoll.Bank.Loading
import Smoll.Bank.Unknown
import Smoll.Bank.Progress
import Smoll.Bank.Overlap
import Smoll.Bank.Disconnect
import Smoll.Lmc.Undamaged
import Smoll.Lmc.Overflow
import Smoll.Hal.Secrecy
import Smoll.Bfs.Unreachable
import Smoll.Bfs.Leftmost
import Smoll.Bfs.Triples
import Smoll.Chat.Messages
import Smoll.Echo.EndOfStream
import Smoll.Hal.BlackBox
import Smoll.Restinio.Request
import Smoll.Restinio.Response
import Smoll.Opendht.JsonLines
import Smoll.Opendht.Proxy
import Smoll.Ips.Expand
import Smoll.Prolog.Descendence
import Smoll.Prolog.Inheritance
import Smoll.Prolog.HigherOrder
import Smoll.Buffer.Semaphore
import Smoll.TimeLimit.Thread
import Smoll.Urls.Script
import Smoll.Flatten.Recursively
import Smoll.Lib.Outline
import Smoll.Lib.OrderedDict
import Smoll.Lib.Throughout
import Smoll.Lib.Streams
import Smoll.Http3.Tables
import Smoll.Http3.Answers
import Smoll.Http3.Websockets
import Smoll.Http3.Pushes
import Smoll.Http3.Downloads
import Smoll.Echo.Exchange
import Smoll.Bank.Ledger
import Smoll.Opendht.Transcripts
import Smoll.Bank.Ending
import Smoll.Buffer.Fairness
import Smoll.Bank.Stalling
