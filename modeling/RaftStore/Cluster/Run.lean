import RaftStore.Raft.Handlers
import RaftStore.Systems.Run
import Mathlib.Logic.Function.Basic

namespace RaftStore
namespace Cluster

open Raft Systems

/-!
# Runs of a cluster

A cluster is a family of nodes that share one list of peers, together with the
network.  The network is the list of all packets ever sent: a packet is never
taken out of it, so that it may be delivered at any later time, any number of
times, in any order, or not at all.  A crash loses everything a node holds in
memory; the restart goes through `with_persistence` on the file the node left.

The routing of messages follows `transport.rs`: a packet carries the true
sender, and `dispatch_message` selects the handler.
-/

/-- A network message between Raft peers. -/
inductive NetworkMessage where
  | requestVote (sender : Nat) (request : RequestVoteRequest)
  | requestVoteResponse (sender : Nat) (response : RequestVoteResponse)
  | appendEntries (sender : Nat) (request : AppendEntriesRequest)
  | appendEntriesResponse (sender : Nat) (response : AppendEntriesResponse)
  deriving DecidableEq, Repr

/-- A message on its way to a node. -/
structure Packet where
  recipient : Nat
  message : NetworkMessage
  deriving DecidableEq, Repr

/-- The packet a node sends for an action, if the action is a send. -/
def packetOf (sender : Nat) : Action -> Option Packet
  | .sendRequestVote recipient request => some ⟨recipient, .requestVote sender request⟩
  | .sendRequestVoteResponse recipient response =>
      some ⟨recipient, .requestVoteResponse sender response⟩
  | .sendAppendEntries recipient request => some ⟨recipient, .appendEntries sender request⟩
  | .sendAppendEntriesResponse recipient response =>
      some ⟨recipient, .appendEntriesResponse sender response⟩
  | .applyEntry _ _ => none

/-- Hand a received message to its Raft handler. -/
def dispatch (node : RaftNode) : NetworkMessage -> Outcome (RaftNode × List Action)
  | .requestVote _ request => .ok (node.handleRequestVote request)
  | .requestVoteResponse sender response => .ok (node.handleRequestVoteResponse sender response)
  | .appendEntries _ request => node.handleAppendEntries request
  | .appendEntriesResponse sender response => node.handleAppendEntriesResponse sender response

/-- The handler a message went to, with what it returned. -/
inductive Handled (node : RaftNode) : NetworkMessage -> RaftNode -> List Action -> Prop where
  | requestVote (sender : Nat) (request : RequestVoteRequest) :
      Handled node (.requestVote sender request) (node.handleRequestVote request).1
        (node.handleRequestVote request).2
  | requestVoteResponse (sender : Nat) (response : RequestVoteResponse) :
      Handled node (.requestVoteResponse sender response)
        (node.handleRequestVoteResponse sender response).1
        (node.handleRequestVoteResponse sender response).2
  | appendEntries (sender : Nat) (request : AppendEntriesRequest) {after : RaftNode}
      {actions : List Action} (returned : node.handleAppendEntries request = .ok (after, actions)) :
      Handled node (.appendEntries sender request) after actions
  | appendEntriesResponse (sender : Nat) (response : AppendEntriesResponse) {after : RaftNode}
      {actions : List Action}
      (returned : node.handleAppendEntriesResponse sender response = .ok (after, actions)) :
      Handled node (.appendEntriesResponse sender response) after actions

/-- A message that is dispatched went to one of the four handlers. -/
theorem dispatch_handled {node after : RaftNode} {message : NetworkMessage}
    {actions : List Action} (dispatched : dispatch node message = .ok (after, actions)) :
    Handled node message after actions := by
  cases message with
  | requestVote sender request =>
      have handled := @Handled.requestVote node sender request
      rw [show node.handleRequestVote request = (after, actions) from Except.ok.inj dispatched]
        at handled
      exact handled
  | requestVoteResponse sender response =>
      have handled := @Handled.requestVoteResponse node sender response
      rw [show node.handleRequestVoteResponse sender response = (after, actions)
        from Except.ok.inj dispatched] at handled
      exact handled
  | appendEntries sender request => exact .appendEntries sender request dispatched
  | appendEntriesResponse sender response => exact .appendEntriesResponse sender response dispatched

/-- What can happen next in a cluster. -/
inductive Event where
  | tick (node : Nat)
  | propose (node : Nat) (command : LogCommand)
  | deliver (packet : Packet)
  | restart (node : Nat)
  deriving DecidableEq, Repr

/-- The node an event happens at. -/
def Event.actor : Event -> Nat
  | .tick node => node
  | .propose node _ => node
  | .deliver packet => packet.recipient
  | .restart node => node

/-- The state of a whole cluster. -/
structure Configuration where
  nodes : Nat -> RaftNode
  network : List Packet

namespace Configuration

/-- All nodes are new and their files do not exist. -/
def initial (peers : List Nat) : Configuration where
  nodes := fun id => RaftNode.withPersistence id peers .new (.ok none : Except Unit _)
  network := []

/-- The node that comes back after a crash, every save having succeeded. -/
def restarted (peers : List Nat) (id : Nat) (node : RaftNode) : RaftNode :=
  let persister := node.persister.getD .new
  RaftNode.withPersistence id peers persister (.ok persister.load : Except Unit _)

theorem awakened_restarted (peers : List Nat) (id : Nat) (node : RaftNode) :
    RaftNode.Awakened id peers (restarted peers id node) :=
  RaftNode.awakened_withPersistence id peers _ _

/-- A node has the term, the vote and the log of another one. -/
structure Resumes (node after : RaftNode) : Prop where
  term : after.state.currentTerm = node.state.currentTerm
  vote : after.state.votedFor = node.state.votedFor
  log : after.state.log = node.state.log
  saved : after.Saved

/-- A node that has saved its state comes back with it. -/
theorem resumes_restarted (peers : List Nat) (id : Nat) {node : RaftNode} (saved : node.Saved)
    (kept : node.state.log.HasSentinel) : Resumes node (restarted peers id node) := by
  rcases saved with ⟨persister, present, content⟩
  have persistent : (restarted peers id node).persistentState = node.persistentState := by
    rcases content with newest | ⟨nothing, initially⟩
    · have rebuilt : RaftLog.fromEntries node.persistentState.log = node.state.log :=
        RaftLog.fromEntries_entries kept
      simp only [restarted, present, Option.getD_some, newest]
      change PersistentState.mk node.state.currentTerm node.state.votedFor
        (RaftLog.fromEntries node.persistentState.log).entries = node.persistentState
      rw [rebuilt]
      rfl
    · rw [initially]
      simp only [restarted, present, Option.getD_some, nothing]
      rfl
  have samePersister : (restarted peers id node).persister = some persister := by
    simp only [restarted, present, Option.getD_some, RaftNode.withPersistence]
    split <;> rfl
  have parts := PersistentState.mk.inj persistent
  refine ⟨parts.1, parts.2.1, ?_, persister, samePersister, by rw [persistent]; exact content⟩
  have equal : (restarted peers id node).state.log.entries = node.state.log.entries := parts.2.2
  cases left : (restarted peers id node).state.log
  cases right : node.state.log
  rw [left, right] at equal
  exact congrArg RaftLog.mk equal

/-- What the acting node does at an event. -/
def respond (peers : List Nat) (config : Configuration) :
    Event -> Outcome (RaftNode × List Action)
  | .tick id => (config.nodes id).tick
  | .propose id command =>
      ((config.nodes id).propose command).map (fun result => (result.1, result.2.getD []))
  | .deliver packet => dispatch (config.nodes packet.recipient) packet.message
  | .restart id => .ok (restarted peers id (config.nodes id), [])

/-- Only a packet that was sent can be delivered. -/
def Enabled (config : Configuration) : Event -> Prop
  | .deliver packet => packet ∈ config.network
  | _ => True

instance (config : Configuration) (event : Event) : Decidable (config.Enabled event) :=
  match event with
  | .deliver packet => inferInstanceAs (Decidable (packet ∈ config.network))
  | .tick _ => inferInstanceAs (Decidable True)
  | .propose _ _ => inferInstanceAs (Decidable True)
  | .restart _ => inferInstanceAs (Decidable True)

/-- Install the result of a handler and put its messages on the network. -/
def install (config : Configuration) (id : Nat) (node : RaftNode) (actions : List Action) :
    Configuration where
  nodes := Function.update config.nodes id node
  network := config.network ++ actions.filterMap (packetOf id)

/-- One step of the cluster.  A handler that panics takes no step. -/
def step (peers : List Nat) (config : Configuration) (event : Event) :
    Option (Configuration × List Action) :=
  if event.actor ∈ peers ∧ config.Enabled event then
    match config.respond peers event with
    | .ok (node, actions) => some (config.install event.actor node actions, actions)
    | .error _ => none
  else none

/-- A step is the response of a member of the cluster to an enabled event. -/
theorem step_eq_some {peers : List Nat} {config next : Configuration} {event : Event}
    {actions : List Action} :
    config.step peers event = some (next, actions) <->
      event.actor ∈ peers ∧ config.Enabled event ∧
        Exists fun node => config.respond peers event = .ok (node, actions) ∧
          next = config.install event.actor node actions := by
  unfold step
  by_cases possible : event.actor ∈ peers ∧ config.Enabled event
  · rw [if_pos possible]
    cases response : config.respond peers event with
    | error panic => simp
    | ok result =>
        rcases result with ⟨node, emitted⟩
        constructor
        · intro equal
          cases equal
          exact ⟨possible.1, possible.2, node, rfl, rfl⟩
        · rintro ⟨_, _, other, same, installed⟩
          cases same
          rw [installed]
  · rw [if_neg possible]
    constructor
    · intro impossible
      cases impossible
    · rintro ⟨member, enabled, _⟩
      exact absurd ⟨member, enabled⟩ possible

@[simp] theorem install_nodes_self (config : Configuration) (id : Nat) (node : RaftNode)
    (actions : List Action) : (config.install id node actions).nodes id = node := by
  simp [install]

theorem install_nodes_of_ne (config : Configuration) {id other : Nat} (node : RaftNode)
    (actions : List Action) (different : other ≠ id) :
    (config.install id node actions).nodes other = config.nodes other := by
  simp [install, different]

/-- What holds of the acting node and of the others holds of all. -/
theorem forall_install_nodes (Holds : Nat -> RaftNode -> Prop) {config : Configuration} {id : Nat}
    {node : RaftNode} {actions : List Action} (acting : Holds id node)
    (others : forall other, other ≠ id -> Holds other (config.nodes other)) (other : Nat) :
    Holds other ((config.install id node actions).nodes other) :=
  (Function.forall_update_iff config.nodes Holds).mpr ⟨acting, others⟩ other

theorem mem_install_network {config : Configuration} {id : Nat} {node : RaftNode}
    {actions : List Action} {packet : Packet} :
    packet ∈ (config.install id node actions).network <->
      packet ∈ config.network ∨ Exists fun action => action ∈ actions ∧ packetOf id action = some packet := by
  simp [install]

/-- A replication request was on the network before or is among the actions. -/
theorem request_of_mem_install {config : Configuration} {id : Nat} {node : RaftNode}
    {actions : List Action} {packet : Packet} {sender : Nat} {request : AppendEntriesRequest}
    (listed : packet ∈ (config.install id node actions).network)
    (message : packet.message = .appendEntries sender request) :
    packet ∈ config.network ∨ .sendAppendEntries packet.recipient request ∈ actions := by
  rcases mem_install_network.mp listed with before | ⟨action, emitted, packed⟩
  · exact Or.inl before
  · cases action with
    | sendAppendEntries recipient sent =>
        cases packed
        cases message
        exact Or.inr emitted
    | applyEntry index command => cases packed
    | _ =>
        cases packed
        cases message

end Configuration

/-! ## Runs and their history -/

/-- The cluster of the given peers as a system. -/
def system (peers : List Nat) : System Configuration Event (List Action) where
  Starts config := config = .initial peers
  step := Configuration.step peers

/-- One step of a run, with the configurations around it. -/
abbrev Transition := Systems.Transition Configuration Event (List Action)

/-- The runs of a cluster of the given peers. -/
abbrev Run (peers : List Nat) : List Transition -> Configuration -> Prop := (system peers).Run

/-- All actions emitted in a run. -/
def emitted (history : List Transition) : List Action :=
  history.flatMap Systems.Transition.output

/-- Execute a list of events from the initial configuration. -/
def execute (peers : List Nat) (events : List Event) : Option (List Transition × Configuration) :=
  (system peers).execute events (.initial peers)

/-- Let time pass at one node. -/
def ticks (id count : Nat) : List Event := List.replicate count (.tick id)

/-- A run with a property that the scheduler can check. -/
theorem exists_run {peers : List Nat} {events : List Event}
    {check : List Transition × Configuration -> Bool}
    (checked : (execute peers events).any check = true) :
    Exists fun history => Exists fun config =>
      Run peers history config ∧ check (history, config) = true :=
  System.exists_run rfl checked

end Cluster
end RaftStore
