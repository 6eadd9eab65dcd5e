import Sasat.Lib.Links
import Sasat.Lib.Tailq
import Sasat.Lib.OnesComplement
import Sasat.Lib.NetBits
import Sasat.Lib.Outcome
import Sasat.Common.Basic
import Sasat.Common.Checksum
import Sasat.Common.InetSum
import Sasat.Common.ArpProc
import Sasat.Common.NsValid
import Sasat.Translate.Header
import Sasat.Back.ClientTbl
import Sasat.Back.ClientMap
import Sasat.Back.ClientWalk
import Sasat.Back.MacResolution
import Sasat.Back.Backend
import Sasat.Back.Connect
import Sasat.Back.Start
import Sasat.Back.Sync
import Sasat.Back.Forward
import Sasat.Front.Policy
import Sasat.Front.SvrTbl
import Sasat.Front.PolTbl
import Sasat.Front.PolLookup
import Sasat.Front.Lookup
import Sasat.Front.CacheInv
import Sasat.Front.Dispatch
import Sasat.Front.Effect
import Sasat.Front.Refusal
import Sasat.Front.Sweep
import Sasat.Front.Load
import Sasat.Front.Runs
import Sasat.Front.Front
import Sasat.Front.Sides
import Sasat.Front.Resolved
import Sasat.Front.SweepRuns
import Sasat.Front.Fresh
import Sasat.Front.Hits
import Sasat.Front.Pointers
import Sasat.Front.UseCount
import Sasat.Translate.Stages
import Sasat.Translate.Classify
import Sasat.Translate.Truncate
import Sasat.Resolve.Accept
import Sasat.Resolve.Advert
import Sasat.Resolve.Bounds
import Sasat.Resolve.Leftover
import Sasat.Resolve.Proxy
import Sasat.Resolve.Counted
import Sasat.Resolve.Destination
import Sasat.Lib.Inevitable
import Sasat.Front.Threads
import Sasat.Front.Handover
import Sasat.Front.Reload
import Sasat.Route.Talk
import Sasat.Lib.LastMatch
import Sasat.Route.Attr
import Sasat.Route.Neigh
import Sasat.Lib.Lines
import Sasat.Conf.Fgets
import Sasat.Conf.PolicyText
import Sasat.Conf.PartStores
import Sasat.Common.Init
import Sasat.Common.Ifaddrs
import Sasat.Conf.PolicyLine
import Sasat.Conf.PolicyFile
import Sasat.Conf.Properties
import Sasat.Lib.FlushBuffer
import Sasat.Log.Format
import Sasat.Log.Writers
import Sasat.Log.Inside
import Sasat.Log.Overrun
import Sasat.Log.Ring
import Sasat.Log.Clients
import Sasat.Cmd.Sasat
import Sasat.Cmd.Server
import Sasat.Cmd.Protocol
import Sasat.Cmd.Signal
import Sasat.Cmd.LogDump
import Sasat.Lib.Decimal
import Sasat.Clock.Cpuinfo
import Sasat.Clock.Convert
import Sasat.Front.Flow
import Sasat.Front.Session
import Sasat.Conf.Life
import Sasat.Conf.PropInit
import Sasat.Back.Configured
import Sasat.Lib.Relay
import Sasat.Lib.Rpc
import Sasat.Lib.Handles
import Sasat.Common.Ping
import Sasat.Common.Sockets
import Sasat.Common.PingRuns
import Sasat.Common.Instance
import Sasat.Translate.Stages6
import Sasat.Translate.Relay
import Sasat.Conf.FrontText
import Sasat.Common.Ledger
import Sasat.Translate.Account
import Sasat.Translate.BackAccount
import Sasat.Translate.Clients
import Sasat.Translate.Delivered4
import Sasat.Clock.Garp
import Sasat.Translate.Dispatcher
