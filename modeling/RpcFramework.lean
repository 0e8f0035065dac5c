import RpcFramework.Proto.DistributedRegistry
import RpcFramework.Proto.RpcMessage
import RpcFramework.Common.Network
import RpcFramework.Lib.Transition
import RpcFramework.Raft.Dispatch
import RpcFramework.Registry.Dispatch
import RpcFramework.Common.ConnectionPool
import RpcFramework.Common.EpollStream
import RpcFramework.Common.EpollSend
import RpcFramework.Registry.Replicas
import RpcFramework.Registry.History
import RpcFramework.Common.EpollServer
import RpcFramework.Raft.Cluster
import RpcFramework.Lib.Majority
import RpcFramework.Lib.LeaderLog
import RpcFramework.Lib.Consensus
import RpcFramework.Raft.Conditions
import RpcFramework.Raft.Election
import RpcFramework.Raft.LogMatching
import RpcFramework.Raft.Replication
import RpcFramework.Raft.Commit
import RpcFramework.Raft.Durability
import RpcFramework.Raft.Conduct
import RpcFramework.Raft.Locks
import RpcFramework.Raft.Deadlock
import RpcFramework.Registry.Reads
import RpcFramework.Registry.RegistryServer
import RpcFramework.Registry.Snapshot
import RpcFramework.Client.Discovery
import RpcFramework.Common.ThreadPool
import RpcFramework.Common.Execution
import RpcFramework.Common.Completion
import RpcFramework.Common.Progress
import RpcFramework.Raft.Candidate
import RpcFramework.Raft.Append
import RpcFramework.Raft.CommitIndex
import RpcFramework.Raft.Round
import RpcFramework.Raft.Repair
import RpcFramework.Raft.Terms
import RpcFramework.Raft.LogAccess
import RpcFramework.Client.RpcClient
import RpcFramework.Client.Calls
import RpcFramework.Common.Descriptor
import RpcFramework.Server.RpcServer
import RpcFramework.Lib.Rotation
import RpcFramework.Server.Accounting
import RpcFramework.Client.RoundRobin
import RpcFramework.Common.EventLoop
import RpcFramework.Raft.Provenance
import RpcFramework.Raft.Applied
import RpcFramework.Raft.Applier
import RpcFramework.Registry.Provenance
import RpcFramework.Registry.Serving
import RpcFramework.Client.Cache
import RpcFramework.Lib.Schema
import RpcFramework.Proto.RoundTrip
import RpcFramework.Server.Conversation
import RpcFramework.Server.KeepAlive
import RpcFramework.Common.EventStreams
import RpcFramework.Common.HostPools
