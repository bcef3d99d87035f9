import RaftStore.Cluster.Lifetime
import RaftStore.Raft.Effects
import RaftStore.Service.Node

namespace RaftStore
namespace Service

open Raft Storage Systems Cluster

/-!
# Servers and their clients

A server is a cluster node behind a lock, with one client at a time.  This file
embeds the part of `network/server.rs` that follows the parsing of a command,
and the sending of `transport.rs`, as steps: each step is one section under the
lock, at the end of which the queued messages are sent.

A write leaves the server waiting for its commitment.  The wait is a loop of
polls, between which any other steps may happen.
-/

/-- A client that waits for the commitment of its write: the index of the write,
and the answer it will get. -/
structure Waiting where
  index : Nat
  ok : Response
  deriving DecidableEq, Repr

/-- A server: its cluster node and its waiting client, if there is one. -/
structure Server where
  node : ClusterNode
  session : Option Waiting

/-- What can happen next in a cluster of servers.  A poll may find that the time
for the wait is over.  A restart follows a crash between two sections; where a
crash cuts the section of an event off, the entries up to index `last` have been
applied. -/
inductive Event where
  | tick (id : Nat)
  | client (id : Nat) (command : Command)
  | poll (id : Nat) (late : Bool)
  | deliver (packet : Packet)
  | restart (id : Nat)
  | crash (event : Event) (last : Nat)
  deriving DecidableEq, Repr

/-- The server an event happens at. -/
def Event.actor : Event -> Nat
  | .tick id => id
  | .client id _ => id
  | .poll id _ => id
  | .deliver packet => packet.recipient
  | .restart id => id
  | .crash event _ => event.actor

/-- The command that a client asks for at an event, also when a crash cuts its
section off. -/
def Event.request : Event -> Option Command
  | .client _ command => some command
  | .crash event _ => event.request
  | _ => none

/-- The answer to a write that was not committed in time. -/
def timeout : Response := .error "TIMEOUT - entry appended but not committed by a majority"

namespace Server

/-- The server that comes up on the files of a node. -/
def reopen (peers : List Nat) (id : Nat) (server : Server) : Except IoError Server := do
  let persister := server.node.raft.persister.getD .new
  let node <- ClusterNode.new id peers persister server.node.storage.wal.file []
  return ⟨node, none⟩

/-- Run a command for the client.  A write is answered later. -/
def ask (server : Server) (command : Command) : Outcome (Server × Option Response) := do
  let (node, response) <- server.node.handleClientCommand command
  match node.pendingCommitIndex with
  | some index => return (⟨node, some ⟨index, response⟩⟩, none)
  | none => return (⟨node, none⟩, some response)

/-- One round of `await_commit`. -/
def awaitCommit (server : Server) (waiting : Waiting) (late : Bool) : Server × Option Response :=
  if server.node.raft.state.commitIndex >= waiting.index then
    ({ server with session := none }, some waiting.ok)
  else if late then ({ server with session := none }, some timeout)
  else (server, none)

/-- The call on the Raft node in the section of an event, if there is one. -/
def call (server : Server) : Event -> Option Call
  | .tick _ => some .tick
  | .client _ command =>
      match server.session with
      | some _ => none
      | none => (server.node.proposal command).map Call.propose
  | .deliver packet => some (.receive packet.message)
  | .poll _ _ => none
  | .restart _ => none
  | .crash _ _ => none

/-- The server that comes up after a crash in the section of an event.  The Raft
node had returned and saved its state.  The loop of `process_actions` stopped
before the first entry behind index `last`, and no message was sent. -/
def cut (peers : List Nat) (server : Server) (event : Event) (last : Nat) : Option Server := do
  let call <- server.call event
  let (raft, actions) <- (call.run server.node.raft).toOption
  if last ≤ raft.state.lastApplied then
    let node := { server.node with raft := raft }.processActions (actions.takeWhile (upTo last))
    (reopen peers event.actor { server with node := node }).toOption
  else none

/-- What a server does at an event, with the answer it gives to its client.
Nothing happens when a handler panics or the files cannot be opened, when a
command comes while the client still waits, and at a poll without a client. -/
def respond (peers : List Nat) (server : Server) : Event -> Option (Server × Option Response)
  | .tick _ => server.node.tick.toOption.map fun node => ({ server with node := node }, none)
  | .client _ command =>
      match server.session with
      | some _ => none
      | none => (server.ask command).toOption
  | .poll _ late => server.session.map fun waiting => server.awaitCommit waiting late
  | .deliver packet =>
      (server.node.dispatchMessage packet.message).toOption.map fun node =>
        ({ server with node := node }, none)
  | .restart id => (server.reopen peers id).toOption.map fun server => (server, none)
  | .crash event last => (server.cut peers event last).map fun server => (server, none)

end Server

/-- The network message for a queued message. -/
def networkMessage (sender : Nat) : MessagePayload -> NetworkMessage
  | .requestVote request => .requestVote sender request
  | .requestVoteResponse response => .requestVoteResponse sender response
  | .appendEntries request => .appendEntries sender request
  | .appendEntriesResponse response => .appendEntriesResponse sender response

/-- Send queued messages to the peers whose address is known. -/
def sendMessages (peers : List Nat) (sender : Nat) (messages : List PeerMessage) : List Packet :=
  messages.filterMap fun message =>
    if message.recipient ∈ peers ∧ message.recipient ≠ sender then
      some ⟨message.recipient, networkMessage sender message.payload⟩
    else none

/-- The state of a cluster of servers.  As before the network keeps every packet
ever sent. -/
structure Configuration where
  servers : Nat -> Server
  network : List Packet

namespace Configuration

/-- All servers have just come up on empty directories. -/
def initial (peers : List Nat) : Configuration where
  servers := fun id =>
    let raft := RaftNode.withPersistence id peers .new (.ok none : Except Unit _)
    ⟨.assemble raft StorageEngine.empty none 1, none⟩
  network := []

/-- The Raft node of a server. -/
def raft (config : Configuration) (id : Nat) : RaftNode := (config.servers id).node.raft

/-- Only a packet that was sent can be delivered. -/
def Enabled (config : Configuration) : Event -> Prop
  | .deliver packet => packet ∈ config.network
  | .crash event _ => config.Enabled event
  | _ => True

instance decidableEnabled (config : Configuration) (event : Event) :
    Decidable (config.Enabled event) :=
  match event with
  | .deliver packet => inferInstanceAs (Decidable (packet ∈ config.network))
  | .crash event _ => decidableEnabled config event
  | .tick _ => inferInstanceAs (Decidable True)
  | .client _ _ => inferInstanceAs (Decidable True)
  | .poll _ _ => inferInstanceAs (Decidable True)
  | .restart _ => inferInstanceAs (Decidable True)

/-- Install the result of a section under the lock and send its messages. -/
def install (peers : List Nat) (config : Configuration) (id : Nat) (server : Server) :
    Configuration :=
  let (node, messages) := server.node.takeOutboundMessages
  { servers := Function.update config.servers id { server with node := node }
    network := config.network ++ sendMessages peers id messages }

/-- One step of the servers, with the answer a client gets at it. -/
def step (peers : List Nat) (config : Configuration) (event : Event) :
    Option (Configuration × Option Response) :=
  if event.actor ∈ peers ∧ config.Enabled event then
    ((config.servers event.actor).respond peers event).map fun result =>
      (config.install peers event.actor result.1, result.2)
  else none

theorem step_eq_some {peers : List Nat} {config next : Configuration} {event : Event}
    {answer : Option Response} :
    config.step peers event = some (next, answer) <->
      event.actor ∈ peers ∧ config.Enabled event ∧ Exists fun server =>
        (config.servers event.actor).respond peers event = some (server, answer) ∧
        next = config.install peers event.actor server := by
  unfold step
  by_cases possible : event.actor ∈ peers ∧ config.Enabled event
  · rw [if_pos possible, Option.map_eq_some_iff]
    constructor
    · rintro ⟨⟨server, given⟩, responded, equal⟩
      cases equal
      exact ⟨possible.1, possible.2, server, responded, rfl⟩
    · rintro ⟨_, _, server, responded, rfl⟩
      exact ⟨(server, answer), responded, rfl⟩
  · rw [if_neg possible]
    constructor
    · intro impossible
      cases impossible
    · rintro ⟨member, enabled, _⟩
      exact absurd ⟨member, enabled⟩ possible

end Configuration

/-! ## Runs -/

/-- The servers of the given peers as a system. -/
def service (peers : List Nat) : System Configuration Event (Option Response) where
  Starts config := config = .initial peers
  step := Configuration.step peers

/-- One step of a run of the servers. -/
abbrev Transition := Systems.Transition Configuration Event (Option Response)

/-- The runs of the servers of the given peers. -/
abbrev Run (peers : List Nat) : List Transition -> Configuration -> Prop := (service peers).Run

/-- Execute a list of events from the initial configuration. -/
def execute (peers : List Nat) (events : List Event) : Option (List Transition × Configuration) :=
  (service peers).execute events (.initial peers)

/-- A run with a property that the scheduler can check. -/
theorem exists_run {peers : List Nat} {events : List Event}
    {check : List Transition × Configuration -> Bool}
    (checked : (execute peers events).any check = true) :
    Exists fun history => Exists fun config =>
      Run peers history config ∧ check (history, config) = true :=
  System.exists_run rfl checked

/-- Let time pass at one server. -/
def ticks (id count : Nat) : List Event := List.replicate count (.tick id)

/-- Node 1 is elected in term 1. -/
def election : List Event :=
  ticks 1 52 ++
  [.deliver ⟨2, .requestVote 1 ⟨1, 1, 0, 0⟩⟩,
   .deliver ⟨1, .requestVoteResponse 2 ⟨1, true⟩⟩]

end Service
end RaftStore
