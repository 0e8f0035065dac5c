import RpcFramework.Proto.RpcMessage
import RpcFramework.Raft.Node

/-!
# Writes through the distributed registry

A client's registration or heartbeat reaches the log through the node it is sent to, if
that node is the leader.  The answer is `success = true` as soon as the leader's own log
has the operation.

## Main definitions

* `DistributedRegistryServer.handleServiceRegister`,
  `DistributedRegistryServer.handleHeartbeat` — the handlers of the two requests.

## Main results

* `DistributedRegistryServer.handleServiceRegister_eq`,
  `DistributedRegistryServer.handleHeartbeat_eq` — an operation succeeds exactly where the
  node leads, and then it is the last entry of the log.
-/

open Rpc

namespace DistributedRegistryServer

/-- The bytes of the operation that `proposeServiceOperation` hands to the node, when the
wall clock shows `timestamp`. -/
def operationData (operationType serviceName host : Bytes) (port timestamp : ℤ) : Bytes :=
  ServiceOperation.codec.encode
    { operationType := operationType, serviceName := serviceName, host := host, port := port,
      timestamp := timestamp }

def proposeServiceOperation (n : RaftNode) (operationType serviceName host : Bytes)
    (port timestamp : ℤ) : RaftNode × Bool :=
  n.proposeLogEntry (utf8 "service_operation")
    (operationData operationType serviceName host port timestamp)

/-- The text for a request that reached a node which does not lead. -/
def notLeader (n : RaftNode) : Bytes := utf8 "不是Leader节点，请联系Leader: " ++ n.leaderId

def handleServiceRegister (n : RaftNode) (request : ServiceRegisterRequest) (timestamp : ℤ) :
    RaftNode × ServiceRegisterResponse :=
  if n.role ≠ .leader then (n, { success := false, message := notLeader n })
  else
    let (n', success) :=
      proposeServiceOperation n (utf8 "register") request.serviceName request.host request.port
        timestamp
    if success then (n', { success := true, message := utf8 "服务注册成功" })
    else (n', { success := false, message := utf8 "服务注册失败" })

def handleHeartbeat (n : RaftNode) (request : HeartbeatRequest) (timestamp : ℤ) :
    RaftNode × HeartbeatResponse :=
  if n.role ≠ .leader then (n, { success := false, message := notLeader n })
  else
    let (n', success) :=
      proposeServiceOperation n (utf8 "heartbeat") request.serviceName request.host request.port
        timestamp
    if success then (n', { success := true, message := utf8 "心跳接收成功" })
    else (n', { success := false, message := utf8 "心跳处理失败" })

/-- The entry a leader makes of a registration. -/
def registerEntry (n : RaftNode) (request : ServiceRegisterRequest) (timestamp : ℤ) : LogEntry :=
  n.proposal (utf8 "service_operation")
    (operationData (utf8 "register") request.serviceName request.host request.port timestamp)

/-- The entry a leader makes of a heartbeat. -/
def heartbeatEntry (n : RaftNode) (request : HeartbeatRequest) (timestamp : ℤ) : LogEntry :=
  n.proposal (utf8 "service_operation")
    (operationData (utf8 "heartbeat") request.serviceName request.host request.port timestamp)

/-- A registration succeeds where the node leads, and appends its entry. -/
theorem handleServiceRegister_eq (n : RaftNode) (request : ServiceRegisterRequest)
    (timestamp : ℤ) :
    handleServiceRegister n request timestamp =
      if n.role = .leader then
        ({ n with log := n.log ++ [registerEntry n request timestamp] },
          { success := true, message := utf8 "服务注册成功" })
      else (n, { success := false, message := notLeader n }) := by
  unfold handleServiceRegister proposeServiceOperation RaftNode.proposeLogEntry
  by_cases h : n.role = .leader
  · simp only [h, ne_eq, not_true_eq_false, if_false, if_true]
    rfl
  · simp only [h, ne_eq, not_false_eq_true, if_true, if_false]

/-- A heartbeat succeeds where the node leads, and appends its entry. -/
theorem handleHeartbeat_eq (n : RaftNode) (request : HeartbeatRequest) (timestamp : ℤ) :
    handleHeartbeat n request timestamp =
      if n.role = .leader then
        ({ n with log := n.log ++ [heartbeatEntry n request timestamp] },
          { success := true, message := utf8 "心跳接收成功" })
      else (n, { success := false, message := notLeader n }) := by
  unfold handleHeartbeat proposeServiceOperation RaftNode.proposeLogEntry
  by_cases h : n.role = .leader
  · simp only [h, ne_eq, not_true_eq_false, if_false, if_true]
    rfl
  · simp only [h, ne_eq, not_false_eq_true, if_true, if_false]

end DistributedRegistryServer
