import Longda.Time.DateTime
import Longda.Time.TimeoutInfo
import Longda.Lib.Machine
import Longda.Lib.Feeds
import Longda.Lib.Loop
import Longda.Lib.Slips
import Longda.Lib.OrderedMap
import Longda.Seda.StageEvent
import Longda.Comm.PackHeader
import Longda.Comm.Ownership
import Longda.Comm.EndPoint
import Longda.Comm.Codec
import Longda.Net.Framing
import Longda.Net.AttachLen
import Longda.Net.Reject
import Longda.Net.BodyReads
import Longda.Net.Hostile
import Longda.Net.Teardown
import Longda.Net.Settled
import Longda.Net.SockMap
import Longda.Net.SockReuse
import Longda.Net.RemoveInactive
import Longda.Net.Sendfile
import Longda.Net.NetThreads
import Longda.Net.Peers
import Longda.Net.RcvFileName
import Longda.Net.RecvProgress
import Longda.Net.SendOrder
import Longda.Net.SendFailure
import Longda.Net.SendReady
import Longda.Comm.Matching
import Longda.Comm.SendCounter
import Longda.Comm.CompletedOnce
import Longda.Seda.TimerSafety
import Longda.Seda.TimerWakeup
import Longda.Seda.TimerDeadline
import Longda.Seda.EventDispatcher
import Longda.Seda.PoolWakeup
import Longda.Seda.PoolDrain
import Longda.Seda.KillThreads
import Longda.Net.RspAttach
import Longda.Conf.IniLoad
import Longda.Seda.StatsPersistence
import Longda.Seda.SedaConfigAtomic
import Longda.Seda.SedaConfigClosed
import Longda.Seda.StoreStats
import Longda.Seda.SedaMetric
import Longda.Conf.Continuation
import Longda.Lib.Decimal
import Longda.Lang.Sscanf
import Longda.Time.XmlDateTime
import Longda.Time.Epoch
import Longda.Lib.Months
import Longda.Time.DurationText
import Longda.Time.AddDuration
import Longda.Lang.Strip
import Longda.Lang.SplitString
import Longda.Lib.Occurrences
import Longda.Lang.Replace
import Longda.Lib.Hexadecimal
import Longda.Lang.HexCodec
import Longda.Time.Unique
import Longda.Lib.Slots
import Longda.Trace.LogRotation
import Longda.Io.DirWalk
import Longda.Io.FileBytes
import Longda.Net.HandlingData
import Longda.Os.LockTrace
import Longda.Os.LockMirror
import Longda.Lib.Pieces
import Longda.Net.Posting
import Longda.Net.FrameStream
import Longda.Net.Delivery
import Longda.Net.Responses
import Longda.Net.EndToEnd
import Longda.Math.Md5
import Longda.Math.Md5Digest
import Longda.Net.Accounted
import Longda.Net.NetCalls
import Longda.Net.NetRuns
