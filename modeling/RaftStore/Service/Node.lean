import RaftStore.Cluster.Run
import RaftStore.Sharding.Router
import RaftStore.Storage.Engine

namespace RaftStore
namespace Service

open Raft Storage Sharding

/-!
# The cluster node

This file embeds `cluster.rs`, with the commands and responses of
`network/protocol.rs`: the Raft node and the storage engine of one server, and
what a client command, a tick and a peer message do to them.
-/

/-- A command parsed from a client request. -/
inductive Command where
  | get (key : String)
  | set (key value : String)
  | del (key : String)
  | ping
  | unknown (name : String)
  deriving DecidableEq, Repr

/-- A response to send back to the client. -/
inductive Response where
  | simpleString (text : String)
  | bulkString (text : String)
  | null
  | error (text : String)
  | integer (value : Int)
  deriving DecidableEq, Repr

/-- The content of a peer message. -/
inductive MessagePayload where
  | requestVote (request : RequestVoteRequest)
  | requestVoteResponse (response : RequestVoteResponse)
  | appendEntries (request : AppendEntriesRequest)
  | appendEntriesResponse (response : AppendEntriesResponse)
  deriving DecidableEq, Repr

/-- A message to be sent to a peer node. -/
structure PeerMessage where
  recipient : Nat
  payload : MessagePayload
  deriving DecidableEq, Repr

/-- A complete cluster node. -/
structure ClusterNode where
  raft : RaftNode
  storage : StorageEngine
  outboundMessages : List PeerMessage
  router : Option Router
  shardId : Nat
  pendingCommitIndex : Option Nat

namespace ClusterNode

/-- A node with its parts in place. -/
def assemble (raft : RaftNode) (storage : StorageEngine) (router : Option Router)
    (shardId : Nat) : ClusterNode where
  raft := raft
  storage := storage
  outboundMessages := []
  router := router
  shardId := shardId
  pendingCommitIndex := none

/-- A cluster node on the given state file and log file, every save having
succeeded. -/
def new (nodeId : Nat) (peers : List Nat) (persister : StatePersister) (file : ByteArray)
    (faults : List (Option Fault)) : Except IoError ClusterNode := do
  let storage <- StorageEngine.new file faults
  let raft := RaftNode.withPersistence nodeId peers persister (.ok persister.load : Except Unit _)
  return assemble raft storage none 1

/-- A cluster node with sharding enabled. -/
def withSharding (nodeId : Nat) (peers : List Nat) (persister : StatePersister) (file : ByteArray)
    (faults : List (Option Fault)) (shardId : Nat) (shardConfigs : List ShardConfig) :
    Except IoError ClusterNode := do
  let storage <- StorageEngine.new file faults
  let raft := RaftNode.withPersistence nodeId peers persister (.ok persister.load : Except Unit _)
  return assemble raft storage (some (Router.new shardConfigs 64)) shardId

/-! ## Actions -/

/-- Apply a committed command to the storage engine.  An error is reported on the
error stream and otherwise ignored. -/
def applyCommand (storage : StorageEngine) : LogCommand -> StorageEngine
  | .put key value => (storage.put key value).1
  | .delete key => (storage.delete key).1
  | .noop => storage

/-- Queue a message for a peer. -/
def enqueue (node : ClusterNode) (recipient : Nat) (payload : MessagePayload) : ClusterNode :=
  { node with outboundMessages := node.outboundMessages ++ [⟨recipient, payload⟩] }

/-- Process one action of the Raft node. -/
def processAction (node : ClusterNode) : Action -> ClusterNode
  | .applyEntry _ command => { node with storage := applyCommand node.storage command }
  | .sendRequestVote recipient request => node.enqueue recipient (.requestVote request)
  | .sendRequestVoteResponse recipient response =>
      node.enqueue recipient (.requestVoteResponse response)
  | .sendAppendEntries recipient request => node.enqueue recipient (.appendEntries request)
  | .sendAppendEntriesResponse recipient response =>
      node.enqueue recipient (.appendEntriesResponse response)

/-- Process actions produced by the Raft node, in order. -/
def processActions (node : ClusterNode) (actions : List Action) : ClusterNode :=
  actions.foldl processAction node

/-- Drain all outbound messages. -/
def takeOutboundMessages (node : ClusterNode) : ClusterNode × List PeerMessage :=
  ({ node with outboundMessages := [] }, node.outboundMessages)

/-- Process a Raft tick. -/
def tick (node : ClusterNode) : Outcome ClusterNode := do
  let (raft, actions) <- node.raft.tick
  return { node with raft := raft }.processActions actions

/-- Dispatch a received message to its Raft handler. -/
def dispatchMessage (node : ClusterNode) (message : Cluster.NetworkMessage) :
    Outcome ClusterNode := do
  let (raft, actions) <- Cluster.dispatch node.raft message
  return { node with raft := raft }.processActions actions

/-! ## Client commands -/

/-- The answer for a key of another shard. -/
def moved (node : ClusterNode) (key : String) : Option Response :=
  match node.router with
  | none => none
  | some router =>
      if router.keyBelongsToShard key node.shardId then none
      else some (.error ("MOVED - key belongs to shard " ++
        toString ((router.getShardId key).getD 0)))

/-- What a client command asks the Raft node to propose: a write on a key of this
shard. -/
def proposal (node : ClusterNode) : Command -> Option LogCommand
  | .set key value => if (node.moved key).isSome then none else some (.put key value)
  | .del key => if (node.moved key).isSome then none else some (.delete key)
  | _ => none

/-- A write on a key of this shard: only the leader proposes it, and its index is
kept so that the answer can wait for its commitment. -/
def write (node : ClusterNode) (command : LogCommand) (ok : Response) :
    Outcome (ClusterNode × Response) :=
  if node.raft.state.role ≠ .leader then
    .ok (node, .error "NOTLEADER - this node is not the leader")
  else do
    let (raft, proposed) <- node.raft.propose command
    let node := { node with raft := raft }
    match proposed with
    | none => return (node, .error "failed to propose")
    | some actions =>
        let node := node.processActions actions
        return ({ node with pendingCommitIndex := some node.raft.state.log.lastIndex }, ok)

/-- Handle a client command. -/
def handleClientCommand (node : ClusterNode) (command : Command) :
    Outcome (ClusterNode × Response) :=
  let node := { node with pendingCommitIndex := none }
  match command with
  | .get key =>
      match node.moved key with
      | some answer => .ok (node, answer)
      | none =>
          match node.storage.get key with
          | some value => .ok (node, .bulkString value)
          | none => .ok (node, .null)
  | .set key value =>
      match node.moved key with
      | some answer => .ok (node, answer)
      | none => node.write (.put key value) (.simpleString "OK")
  | .del key =>
      match node.moved key with
      | some answer => .ok (node, answer)
      | none => node.write (.delete key) (.integer 1)
  | .ping => .ok (node, .simpleString "PONG")
  | .unknown name => .ok (node, .error ("unknown command '" ++ name ++ "'"))

end ClusterNode
end Service
end RaftStore
