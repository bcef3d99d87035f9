import RaftStore.Cluster.Delivery
import RaftStore.Cluster.Ordering
import RaftStore.Cluster.Reports
import RaftStore.Cluster.Leaders
import RaftStore.Cluster.Bookkeeping
import RaftStore.Cluster.Repair
import RaftStore.Cluster.Terms
import RaftStore.Cluster.Progress
import RaftStore.Cluster.Draws
import RaftStore.Cluster.Traffic
import RaftStore.Service.Acknowledgement
import RaftStore.Service.Replay
import RaftStore.Service.Single
import RaftStore.Service.Shards
import RaftStore.Service.Availability
import RaftStore.Service.Conversation
import RaftStore.Service.Metrics
import RaftStore.Service.Operation
import RaftStore.Storage.Failures
import RaftStore.Storage.Accounting
import RaftStore.Storage.Codec
import RaftStore.Network.Replies
import RaftStore.Sharding.Hashing
import RaftStore.Sharding.Counts
