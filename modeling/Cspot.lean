import Cspot.Runtime.Dispatch
import Cspot.Runtime.Firing
import Cspot.Senspot.FileMover
import Cspot.Senspot.Forward
import Cspot.Senspot.ForwardLock
import Cspot.Woof.AppendEquivalence
import Cspot.Woof.RingLog
import Cspot.Net.HandlerLevel
import Cspot.Net.Hidden
import Cspot.Net.Completeness
import Cspot.Net.NameGuard
import Cspot.Net.RemoteRange
import Cspot.Net.RemoteTail
import Cspot.Net.SeqNos
import Cspot.Net.PutSize
import Cspot.Net.OneReply
import Cspot.Net.RemoteCreate
import Cspot.Net.CreatedWoofs
import Cspot.Caplets.KeychainPrint
import Cspot.Net.Cmq.ConnectionCache
import Cspot.Net.Cmq.FrameHeap
import Cspot.Net.Cmq.Transfers
import Cspot.Net.Cmq.MqttRoundTrip
import Cspot.Merge.HostTable
import Cspot.Merge.Conservation
import Cspot.Dht.Notify
import Cspot.Dht.FixFinger
import Cspot.Dht.Stabilize
import Cspot.Monitor.Exclusion
import Cspot.Dataflow.Firing
import Cspot.Laminar.Subscribers
import Cspot.Raft.JointArray
import Cspot.Raft.Lock
import Cspot.Raft.JointConsensus
import Cspot.Raft.Applied
import Cspot.Raft.ElectionSafety
import Cspot.Merge.TailExtraction
import Cspot.Dht.Publish
