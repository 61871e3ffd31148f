import GcAdaptor.Interleave
import GcAdaptor.Wire
import GcAdaptor.Cxx
import GcAdaptor.CasCounter
import GcAdaptor.MsgModule
import GcAdaptor.NetworkModule
import GcAdaptor.ClassApi
import GcAdaptor.Throttle
import GcAdaptor.Admission
import GcAdaptor.BufferChain
import GcAdaptor.WriteOp
import GcAdaptor.OsdMap
import GcAdaptor.LinkedQueue
import GcAdaptor.TwoLevelSem
import GcAdaptor.RadosWorker
import GcAdaptor.WorkerOrder
import GcAdaptor.WorkerStop
import GcAdaptor.ClientChoice
import GcAdaptor.ClientOpQueue
import GcAdaptor.QueueLock
import GcAdaptor.OpHandlerOrder
import GcAdaptor.QueueBound
import GcAdaptor.HandlerStop
import GcAdaptor.LaneProgram
import GcAdaptor.Straw2
import GcAdaptor.Copyup
import GcAdaptor.RetryOp
import GcAdaptor.InFlight
import GcAdaptor.ClientAdaptorMsg
import GcAdaptor.RbdName
import GcAdaptor.MergeCopyup
import GcAdaptor.OmapDecode
import GcAdaptor.TlsSend
import GcAdaptor.SnapshotRollback
import GcAdaptor.RadosInit
import GcAdaptor.ReadOp
import GcAdaptor.OmapIter
import GcAdaptor.ConfigList
import GcAdaptor.CephProxy
import GcAdaptor.IoCtxMap
import GcAdaptor.IoCtxTable
import GcAdaptor.WriteQos
import GcAdaptor.Prefetch
import GcAdaptor.CephDf
import GcAdaptor.PoolUsage
import GcAdaptor.ClusterViews
import GcAdaptor.ClassHandler
import GcAdaptor.GcSession
import GcAdaptor.PluginLifecycle
import GcAdaptor.DasInfo
import GcAdaptor.CallTrace
import GcAdaptor.RbdCalls
import GcAdaptor.DiskUsage
import GcAdaptor.PoolNotify
import GcAdaptor.ServerStart
import GcAdaptor.ReplyData
import GcAdaptor.ProxyStop
import GcAdaptor.Ledger
import GcAdaptor.ProxyLifecycle
