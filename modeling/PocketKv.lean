import PocketKv.Client.OutRing
import PocketKv.Client.ReadOnly
import PocketKv.CommitGate.FailClosed
import PocketKv.CommitGate.Framing
import PocketKv.CommitGate.FwdQueue
import PocketKv.CommitGate.Resume
import PocketKv.CommitGate.Stranded
import PocketKv.Persistence.Deadlines
import PocketKv.Persistence.DocRoundTrip
import PocketKv.Persistence.Outcomes
import PocketKv.Persistence.SlotLog
import PocketKv.Persistence.TornTail
import PocketKv.Replication.BarrierRelease
import PocketKv.Replication.CatchUp
import PocketKv.Replication.Convergence
import PocketKv.Replication.CrashResume
import PocketKv.Replication.Handshake
import PocketKv.Replication.Lifecycle
import PocketKv.Replication.Refusals
import PocketKv.Replication.RemoteMr
import PocketKv.Replication.Repldone
import PocketKv.Replication.RingContent
import PocketKv.Resp.Placement
import PocketKv.Storage.ActiveExpiry
import PocketKv.Storage.ArrayRefinement
import PocketKv.Storage.DocRefinement
import PocketKv.Storage.SkipRefinement
import PocketKv.Storage.VectorScan
import PocketKv.Store.ReadBack
import PocketKv.Store.Ttl
