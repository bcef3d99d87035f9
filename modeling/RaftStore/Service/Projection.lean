import RaftStore.Cluster.Responses
import RaftStore.Service.Steps

namespace RaftStore
namespace Service

open Raft Storage Systems Cluster

/-!
# The Raft nodes of the servers

Seen from its Raft nodes, a step of the servers is a step of a Raft cluster or
none at all, and a crash in a section is a step and a restart.  The servers send
less than the cluster does, since a message to oneself or to an unknown peer is
dropped and so are all messages of a section that is cut off; what they send is on
the network of the cluster too.  The storage engine of the acting server is
rebuilt from its file at a restart, and otherwise takes the commands that its Raft
node applies.
-/

/-- The step of the Raft nodes that an event of the servers may cause. -/
inductive Event.Causes : Event -> Cluster.Event -> Prop
  | tick {id : Nat} : Causes (.tick id) (.tick id)
  | write {id : Nat} {command : Command} {logged : LogCommand} {ok : Response}
      (written : command.written = some (logged, ok)) :
      Causes (.client id command) (.propose id logged)
  | deliver {packet : Packet} : Causes (.deliver packet) (.deliver packet)
  | restart {id : Nat} : Causes (.restart id) (.restart id)

theorem Event.Causes.actor_eq {event : Event} {cause : Cluster.Event} (causes : event.Causes cause) :
    cause.actor = event.actor := by
  cases causes <;> rfl

/-- The Raft cluster behind the servers: the same nodes, and a network that has
at least the packets of the servers.  Nothing is left to be sent. -/
structure Projects (config : Configuration) (image : Cluster.Configuration) : Prop where
  nodes : image.nodes = config.raft
  network : config.network ⊆ image.network
  drained : forall id, (config.servers id).node.outboundMessages = []

/-- What a step does to the storage engine of the acting server. -/
inductive Stores (before : StorageEngine) : Cluster.Event -> List Action -> StorageEngine -> Prop
  | reopens {id : Nat} {after : StorageEngine}
      (opened : StorageEngine.new before.wal.file [] = .ok after) :
      Stores before (.restart id) [] after
  | applies {event : Cluster.Event} {actions : List Action}
      (running : forall id, event ≠ .restart id) :
      Stores before event actions
        ((commandsOf actions).foldl ClusterNode.applyCommand before)

/-- The storage engine of a server. -/
def Configuration.storage (config : Configuration) (id : Nat) : StorageEngine :=
  (config.servers id).node.storage

/-- The storage engine that comes up after a crash: of the entries that the actions
apply, those behind index `last` are not in the file. -/
def Salvages (before : StorageEngine) (actions : List Action) (last : Nat) (after : StorageEngine) :
    Prop :=
  StorageEngine.new ((commandsOf (actions.takeWhile (upTo last))).foldl
    ClusterNode.applyCommand before).wal.file [] = .ok after

/-- The Raft nodes do nothing and no storage engine changes, or the Raft nodes
take a step and the storage engine of the acting server follows it, or the acting
server crashes on the way. -/
inductive StepProjects (peers : List Nat) (config : Configuration) (event : Event)
    (next : Configuration) (image : Cluster.Configuration) : Prop
  | quiet (whole : forall begun last, event ≠ .crash begun last) (raft : next.raft = config.raft)
      (storage : next.storage = config.storage) (projects : Projects next image)
  | moves (cause : Cluster.Event) (actions : List Action) (after : Cluster.Configuration)
      (causes : event.Causes cause) (stepped : image.step peers cause = some (after, actions))
      (projects : Projects next after)
      (stores : Stores (config.storage event.actor) cause actions (next.storage event.actor))
      (others : forall id, id ≠ event.actor -> next.storage id = config.storage id)
  | crashes (begun : Event) (last : Nat) (cause : Cluster.Event) (actions : List Action)
      (middle after : Cluster.Configuration) (same : event = .crash begun last)
      (causes : begun.Causes cause) (running : forall id, cause ≠ .restart id)
      (stepped : image.step peers cause = some (middle, actions))
      (inside : last ≤ (middle.nodes event.actor).state.lastApplied)
      (restarted : middle.step peers (.restart event.actor) = some (after, []))
      (projects : Projects next after)
      (salvages : Salvages (config.storage event.actor) actions last (next.storage event.actor))
      (others : forall id, id ≠ event.actor -> next.storage id = config.storage id)

/-- How the acting server comes to its new state: its Raft node and its storage engine
stay as they are, or its Raft node responds to an event of the cluster and is
restarted after it or not. -/
inductive Responds (peers : List Nat) (config : Configuration) (event : Event)
    (image : Cluster.Configuration) (server : Server) : Prop
  | quiet (whole : forall begun last, event ≠ .crash begun last)
      (raft : server.node.raft = config.raft event.actor)
      (storage : server.node.storage = config.storage event.actor)
      (queued : server.node.outboundMessages = [])
  | moves (cause : Cluster.Event) (actions : List Action) (causes : event.Causes cause)
      (enabled : image.Enabled cause)
      (response : image.respond peers cause = .ok (server.node.raft, actions))
      (queued : server.node.outboundMessages = actions.filterMap messageOf)
      (stores : Stores (config.storage event.actor) cause actions server.node.storage)
  | crashes (begun : Event) (last : Nat) (cause : Cluster.Event) (raft : RaftNode)
      (actions : List Action) (same : event = .crash begun last)
      (causes : begun.Causes cause) (running : forall id, cause ≠ .restart id)
      (enabled : image.Enabled cause)
      (response : image.respond peers cause = .ok (raft, actions))
      (inside : last ≤ raft.state.lastApplied)
      (restarted : server.node.raft = Cluster.Configuration.restarted peers event.actor raft)
      (queued : server.node.outboundMessages = [])
      (salvages : Salvages (config.storage event.actor) actions last server.node.storage)

section Projection

variable {peers : List Nat} {config : Configuration} {image : Cluster.Configuration}

theorem projects_initial (peers : List Nat) :
    Projects (.initial peers) (.initial peers) :=
  ⟨rfl, List.Subset.refl _, fun _ => rfl⟩

/-- The servers of the initial configuration have come up on empty files. -/
theorem new_initial (peers : List Nat) (id : Nat) :
    ClusterNode.new id peers .new ByteArray.empty [] =
      .ok ((Configuration.initial peers).servers id).node := by
  unfold ClusterNode.new
  rw [StorageEngine.new_empty]
  rfl

/-- A queued message is the message of some action. -/
theorem packetOf_eq_networkMessage {action : Action} {message : PeerMessage} (sender : Nat)
    (queued : messageOf action = some message) :
    packetOf sender action = some ⟨message.recipient, networkMessage sender message.payload⟩ := by
  cases action with
  | applyEntry index command => cases queued
  | _ =>
      cases queued
      rfl

/-- A node comes up when its storage engine does. -/
theorem ClusterNode.new_eq_ok {id : Nat} {persister : StatePersister} {file : ByteArray}
    {faults : List (Option Fault)} {node : ClusterNode}
    (started : ClusterNode.new id peers persister file faults = .ok node) :
    Exists fun storage => StorageEngine.new file faults = .ok storage ∧
      node = .assemble (RaftNode.withPersistence id peers persister
        (.ok persister.load : Except Unit _)) storage none 1 := by
  unfold ClusterNode.new at started
  cases opened : StorageEngine.new file faults with
  | error error =>
      simp only [opened] at started
      cases started
  | ok storage =>
      simp only [opened] at started
      cases started
      exact ⟨storage, rfl, rfl⟩

theorem ClusterNode.withSharding_eq_ok {id : Nat} {persister : StatePersister} {file : ByteArray}
    {faults : List (Option Fault)} {shardId : Nat} {configs : List Sharding.ShardConfig}
    {node : ClusterNode}
    (started : ClusterNode.withSharding id peers persister file faults shardId configs = .ok node) :
    Exists fun storage => StorageEngine.new file faults = .ok storage ∧
      node = .assemble (RaftNode.withPersistence id peers persister
        (.ok persister.load : Except Unit _)) storage (some (.new configs 64)) shardId := by
  unfold ClusterNode.withSharding at started
  cases opened : StorageEngine.new file faults with
  | error error =>
      simp only [opened] at started
      cases started
  | ok storage =>
      simp only [opened] at started
      cases started
      exact ⟨storage, rfl, rfl⟩

/-- What a server sends is sent by the cluster too. -/
theorem sendMessages_subset (peers : List Nat) (sender : Nat) (actions : List Action) :
    sendMessages peers sender (actions.filterMap messageOf) ⊆
      actions.filterMap (packetOf sender) := by
  intro packet listed
  rcases List.mem_filterMap.mp listed with ⟨message, queued, sent⟩
  rcases List.mem_filterMap.mp queued with ⟨action, emitted, given⟩
  split at sent
  · cases sent
    exact List.mem_filterMap.mpr ⟨action, emitted, packetOf_eq_networkMessage sender given⟩
  · cases sent

theorem Configuration.install_raft (config : Configuration) (id : Nat) (server : Server) :
    (config.install peers id server).raft = Function.update config.raft id server.node.raft := by
  funext other
  by_cases acting : other = id
  · subst acting
    rw [Function.update_self, Configuration.raft, install_servers_self]
  · rw [Function.update_of_ne acting, Configuration.raft, install_servers_of_ne peers config server
      acting]
    rfl

theorem Configuration.install_storage_self (config : Configuration) (id : Nat) (server : Server) :
    (config.install peers id server).storage id = server.node.storage := by
  rw [storage, install_servers_self]

theorem Configuration.install_storage_of_ne (config : Configuration) {id other : Nat}
    (server : Server) (different : other ≠ id) :
    (config.install peers id server).storage other = config.storage other := by
  rw [storage, install_servers_of_ne peers config server different]
  rfl

/-- The image of a step that ends with these actions of the acting Raft node. -/
theorem Projects.install (projects : Projects config image) {id : Nat} {server : Server}
    {actions : List Action}
    (queued : server.node.outboundMessages = actions.filterMap messageOf) :
    Projects (config.install peers id server)
      (image.install id server.node.raft actions) where
  nodes := by
    rw [Configuration.install_raft, ← projects.nodes]
    rfl
  network := by
    intro packet listed
    rcases List.mem_append.mp listed with before | sent
    · exact List.mem_append_left _ (projects.network before)
    · rw [queued] at sent
      exact List.mem_append_right _ (sendMessages_subset peers id actions sent)
  drained other := by
    by_cases acting : other = id
    · subst acting
      rw [Configuration.install_servers_self]
    · rw [Configuration.install_servers_of_ne peers config server acting]
      exact projects.drained other

/-- The image of a step that leaves the acting Raft node as it is. -/
theorem Projects.rests (projects : Projects config image) {id : Nat} {server : Server}
    (raft : server.node.raft = config.raft id) (queued : server.node.outboundMessages = []) :
    Projects (config.install peers id server) image where
  nodes := by
    rw [Configuration.install_raft, raft, Function.update_eq_self, projects.nodes]
  network := by
    intro packet listed
    rcases List.mem_append.mp listed with before | sent
    · exact projects.network before
    · rw [queued] at sent
      exact (List.not_mem_nil sent).elim
  drained :=
    have installed : Projects (config.install peers id server)
        (image.install id server.node.raft []) := projects.install queued
    installed.drained

/-- A server whose Raft node and storage engine stay as they are. -/
theorem Projects.stepProjects_quiet (projects : Projects config image) {event : Event}
    {server : Server} (whole : forall begun last, event ≠ .crash begun last)
    (raft : server.node.raft = config.raft event.actor)
    (storage : server.node.storage = config.storage event.actor)
    (queued : server.node.outboundMessages = []) :
    StepProjects peers config event (config.install peers event.actor server) image := by
  refine .quiet whole ?_ ?_ (projects.rests raft queued)
  · rw [Configuration.install_raft, raft, Function.update_eq_self]
  · funext id
    by_cases acting : id = event.actor
    · subst acting
      rw [Configuration.install_storage_self, storage]
    · exact config.install_storage_of_ne server acting

/-- A server that comes up after its Raft node responded to an event of the cluster.
The cluster behind it takes the step, with all its messages, and the restart. -/
theorem Projects.stepProjects_crashes (projects : Projects config image) {event begun : Event}
    {last : Nat} {cause : Cluster.Event} {server : Server} {raft : RaftNode} {actions : List Action}
    (same : event = .crash begun last) (causes : begun.Causes cause)
    (running : forall id, cause ≠ .restart id) (member : event.actor ∈ peers)
    (enabled : image.Enabled cause) (response : image.respond peers cause = .ok (raft, actions))
    (inside : last ≤ raft.state.lastApplied)
    (restarted : server.node.raft = Cluster.Configuration.restarted peers event.actor raft)
    (queued : server.node.outboundMessages = [])
    (salvages : Salvages (config.storage event.actor) actions last server.node.storage) :
    StepProjects peers config event (config.install peers event.actor server) image := by
  have acting : cause.actor = event.actor := by
    rw [causes.actor_eq, same]
    rfl
  have here : (image.install event.actor raft actions).nodes event.actor = raft :=
    Cluster.Configuration.install_nodes_self image event.actor raft actions
  refine .crashes begun last cause actions (image.install event.actor raft actions)
    ((image.install event.actor raft actions).install event.actor server.node.raft []) same causes
    running ?_ ?_ ?_ ?_ ?_ fun id other => config.install_storage_of_ne server other
  · exact Cluster.Configuration.step_eq_some.mpr
      ⟨by rw [acting]; exact member, enabled, _, response, by rw [acting]⟩
  · rw [here]
    exact inside
  · refine Cluster.Configuration.step_eq_some.mpr ⟨member, True.intro, _, ?_, rfl⟩
    change Except.ok (Cluster.Configuration.restarted peers event.actor
      ((image.install event.actor raft actions).nodes event.actor), []) = _
    rw [here, restarted]
  · have installed : Projects (config.install peers event.actor server)
        (image.install event.actor server.node.raft []) := projects.install queued
    refine ⟨?_, fun packet listed => ?_, installed.drained⟩
    · rw [← installed.nodes]
      funext id
      simp only [Cluster.Configuration.install, Function.update_idem]
    · exact List.mem_append_left _ (by
        rcases List.mem_append.mp (installed.network listed) with before | sent
        · exact List.mem_append_left _ before
        · exact (List.not_mem_nil sent).elim)
  · rw [Configuration.install_storage_self]
    exact salvages

/-- A server whose Raft node responds to an event of the cluster. -/
theorem Projects.stepProjects_moves (projects : Projects config image) {event : Event}
    {cause : Cluster.Event} {server : Server} {actions : List Action}
    (causes : event.Causes cause) (member : event.actor ∈ peers) (enabled : image.Enabled cause)
    (response : image.respond peers cause = .ok (server.node.raft, actions))
    (queued : server.node.outboundMessages = actions.filterMap messageOf)
    (stores : Stores (config.storage event.actor) cause actions server.node.storage) :
    StepProjects peers config event (config.install peers event.actor server) image := by
  have same := causes.actor_eq
  refine .moves cause actions (image.install cause.actor server.node.raft actions) causes
    (Cluster.Configuration.step_eq_some.mpr
      ⟨by rw [same]; exact member, enabled, _, response, rfl⟩) ?_ ?_ ?_
  · rw [same]
    exact projects.install queued
  · rw [Configuration.install_storage_self]
    exact stores
  · exact fun id other => config.install_storage_of_ne server other

/-- The call in the section of an event is a step of the cluster. -/
theorem Projects.respond_of_call (projects : Projects config image) {event : Event} {call : Call}
    {raft : RaftNode} {actions : List Action} (enabled : config.Enabled event)
    (asked : (config.servers event.actor).call event = some call)
    (called : call.run (config.raft event.actor) = .ok (raft, actions)) :
    Exists fun cause => event.Causes cause ∧ (forall id, cause ≠ .restart id) ∧
      image.Enabled cause ∧ image.respond peers cause = .ok (raft, actions) := by
  have own : image.nodes event.actor = config.raft event.actor := congrFun projects.nodes event.actor
  rw [← own] at called
  cases event with
  | tick id =>
      cases asked
      exact ⟨_, .tick, by rintro _ ⟨⟩, True.intro, called⟩
  | client id command =>
      simp only [Server.call] at asked
      split at asked
      · cases asked
      · rcases Option.map_eq_some_iff.mp asked with ⟨logged, proposed, rfl⟩
        rcases ClusterNode.written_of_proposal proposed with ⟨ok, written, _⟩
        exact ⟨_, .write written, by rintro _ ⟨⟩, True.intro, called⟩
  | deliver packet =>
      cases asked
      exact ⟨_, .deliver, by rintro _ ⟨⟩, projects.network enabled, called⟩
  | poll id late => cases asked
  | restart id => cases asked
  | crash begun last => cases asked

/-- The one case analysis over what a server can do. -/
theorem Projects.responds (projects : Projects config image) {event : Event} {server : Server}
    {answer : Option Response} (enabled : config.Enabled event)
    (responded : (config.servers event.actor).respond peers event = some (server, answer)) :
    Responds peers config event image server := by
  have drained := projects.drained event.actor
  have own : image.nodes event.actor = (config.servers event.actor).node.raft :=
    congrFun projects.nodes event.actor
  have performed : forall raft actions,
      ((config.servers event.actor).node.perform raft actions).outboundMessages =
        actions.filterMap messageOf := by
    intro raft actions
    change (config.servers event.actor).node.outboundMessages ++ _ = _
    rw [drained, List.nil_append]
  cases Server.does_of_respond responded with
  | @ticks id raft actions called =>
      refine .moves _ actions .tick True.intro ?_ (performed raft actions)
        (.applies (by rintro _ ⟨⟩))
      change (image.nodes id).tick = .ok (raft, actions)
      rw [show image.nodes id = _ from own]
      exact called
  | @receives packet raft actions called =>
      refine .moves _ actions .deliver (projects.network enabled) ?_ (performed raft actions)
        (.applies (by rintro _ ⟨⟩))
      change dispatch (image.nodes packet.recipient) packet.message = .ok (raft, actions)
      rw [show image.nodes packet.recipient = _ from own]
      exact called
  | answers free => exact .quiet (by rintro _ _ ⟨⟩) rfl rfl drained
  | @writes id command logged ok raft actions free written called =>
      refine .moves _ actions (.write written) True.intro ?_ (performed raft actions)
        (.applies (by rintro _ ⟨⟩))
      refine Outcome.map_eq_ok.mpr ⟨(raft, some actions), ?_, rfl⟩
      rw [show image.nodes id = _ from own]
      exact called
  | waits => exact .quiet (by rintro _ _ ⟨⟩) rfl rfl drained
  | acknowledges session reached => exact .quiet (by rintro _ _ ⟨⟩) rfl rfl drained
  | expires => exact .quiet (by rintro _ _ ⟨⟩) rfl rfl drained
  | @restarts id node reopened =>
      rcases ClusterNode.new_eq_ok reopened with ⟨storage, opened, rfl⟩
      refine .moves _ [] .restart True.intro ?_ rfl (.reopens opened)
      change Except.ok (Cluster.Configuration.restarted peers id (image.nodes id), []) = _
      rw [show image.nodes id = _ from own]
      rfl
  | @crashes begun last call raft actions node asked called inside reopened =>
      rcases ClusterNode.new_eq_ok reopened with ⟨storage, opened, rfl⟩
      have possible : config.Enabled begun := enabled
      rcases projects.respond_of_call possible asked called with
        ⟨cause, causes, running, enabled, response⟩
      exact .crashes begun last cause raft actions rfl causes running enabled response inside rfl rfl
        opened

/-- **The projection.**  Every step of the servers is a step of their Raft nodes,
with a restart after it where the server crashes, or leaves them and the storage
engines alone. -/
theorem Projects.step (projects : Projects config image) {event : Event}
    {answer : Option Response} {next : Configuration}
    (stepped : config.step peers event = some (next, answer)) :
    StepProjects peers config event next image := by
  rcases Configuration.step_eq_some.mp stepped with ⟨member, enabled, server, responded, rfl⟩
  cases projects.responds enabled responded with
  | quiet whole raft storage queued => exact projects.stepProjects_quiet whole raft storage queued
  | moves cause actions causes enabled response queued stores =>
      exact projects.stepProjects_moves causes member enabled response queued stores
  | crashes begun last cause raft actions same causes running enabled response inside restarted
      queued salvages =>
      exact projects.stepProjects_crashes same causes running member enabled response inside
        restarted queued salvages

end Projection
end Service
end RaftStore
