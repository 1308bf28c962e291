import Coseq.ArrivalOrder
import Coseq.CallOrder
import Coseq.CppManager
import Coseq.EventPartition
import Coseq.FiberRefs
import Coseq.FirstReply
import Coseq.Gather
import Coseq.HeapTeardown
import Coseq.Instances
import Coseq.LockExclusion
import Coseq.LockReplies
import Coseq.LockedInbox
import Coseq.PayloadWhole
import Coseq.PendingIds
import Coseq.Publication
import Coseq.RejectedRequest
import Coseq.ReplyCorrelation
import Coseq.RequestCarriers
import Coseq.RequestOrigin
import Coseq.SampleApp
import Coseq.SchedulerTurns
import Coseq.Standstill
import Coseq.StartOrder
import Coseq.TimedRequest
import Coseq.TimelyReply
import Coseq.TimerPass
import Coseq.WaitGraph
import Coseq.WaitState
import Coseq.WaitTimeout
