import RaftStore.Cluster.Addressing
import RaftStore.Cluster.Progress
import RaftStore.Cluster.Promptness
import RaftStore.Service.History
import RaftStore.Service.Shadows
import RaftStore.Service.Single

namespace RaftStore
namespace Service

open Raft Storage Systems Cluster

/-!
# Writes that can be served

Whatever the cluster of Raft nodes can do by itself, the servers can do as well,
without a word to their clients.  In particular a client can always be served, by any
server that has the logs of enough others.
-/

section Continuing

variable {peers team : List Nat} {history : List Transition} {config next : Configuration}
  {image : Cluster.Configuration} {actions : List Action} {server : Server} {id active old sent : Nat}

/-! ## The same messages -/

/-- The cluster behind the servers.  What it has sent after its `old` first packets, the
servers have sent after their `sent` first ones. -/
structure Tracks (peers : List Nat) (old sent : Nat) (image : Cluster.Configuration)
    (config : Configuration) : Prop where
  run : Exists fun past => Cluster.Run peers past image
  projects : Projects config image
  since : old ≤ image.network.length
  within : sent ≤ config.network.length
  recent : image.network.drop old = config.network.drop sent

/-- Whatever was sent before, from now on the servers send what the cluster does. -/
theorem Run.tracks (run : Run peers history config) :
    Exists fun image =>
      Tracks peers image.network.length config.network.length image config := by
  rcases run.shadows with ⟨past, image, shadows⟩
  refine ⟨image, ⟨past, shadows.run⟩, shadows.projects, Nat.le_refl _, Nat.le_refl _, ?_⟩
  rw [List.drop_length, List.drop_length]

/-- Nothing is dropped of what goes to other members. -/
theorem sendMessages_eq
    (targets : SendsTo (fun recipient => recipient ∈ peers ∧ recipient ≠ id) actions) :
    sendMessages peers id (actions.filterMap messageOf) = actions.filterMap (packetOf id) := by
  unfold sendMessages
  rw [List.filterMap_filterMap]
  apply List.filterMap_congr
  intro action listed
  cases action with
  | applyEntry index command => rfl
  | _ =>
      have target := targets _ _ listed rfl
      exact if_pos target

/-- The step of a server whose Raft node takes a step. -/
theorem Tracks.moves (distinct : peers.Nodup) (tracks : Tracks peers old sent image config)
    {cause : Cluster.Event} (same : cause.actor = id) (member : id ∈ peers)
    (enabled : image.Enabled cause)
    (response : image.respond peers cause = .ok (server.node.raft, actions))
    (queued : server.node.outboundMessages = actions.filterMap messageOf) :
    Tracks peers old sent (image.install id server.node.raft actions)
      (config.install peers id server) := by
  subst same
  rcases tracks.run with ⟨past, ran⟩
  rcases ran.traces distinct with ⟨ledger, traces⟩
  have targets := traces.simulates.respond_sendsTo
    (fun _ listed => packets_addressed distinct ran listed) member enabled response
  have stepped : image.step peers cause = some (_, actions) :=
    Cluster.Configuration.step_eq_some.mpr ⟨member, enabled, _, response, rfl⟩
  refine ⟨⟨_, ran.next stepped⟩, tracks.projects.install queued,
    Nat.le_trans tracks.since (List.prefix_append _ _).length_le,
    Nat.le_trans tracks.within (List.prefix_append _ _).length_le, ?_⟩
  change (image.network ++ _).drop old =
    (config.network ++ sendMessages peers cause.actor _).drop sent
  rw [queued, sendMessages_eq targets, List.drop_append_of_le_length tracks.since,
    List.drop_append_of_le_length tracks.within, tracks.recent]

/-- The step of a server whose Raft node stays as it is. -/
theorem Tracks.rests (tracks : Tracks peers old sent image config)
    (raft : server.node.raft = config.raft id) (queued : server.node.outboundMessages = []) :
    Tracks peers old sent image (config.install peers id server) := by
  refine ⟨tracks.run, tracks.projects.rests raft queued, tracks.since,
    Nat.le_trans tracks.within (List.prefix_append _ _).length_le, ?_⟩
  change _ = (config.network ++ sendMessages peers id _).drop sent
  rw [queued, tracks.recent]
  exact congrArg (List.drop sent) (List.append_nil _).symm

/-! ## The same steps -/

/-- A tick of the active server, or the arrival of a packet at a server of the team, which
comes after the `sent` first ones. -/
def Unnoticed (active : Nat) (team : List Nat) (sent : Nat) (config : Configuration) : Event -> Prop
  | .tick id => id = active
  | .deliver packet => packet.recipient ∈ team ∧ packet ∈ config.network.drop sent
  | .client _ _ => False
  | .poll _ _ => False
  | .restart _ => False
  | .crash _ _ => False

/-- The client of each server waits for what it has waited for. -/
def Undisturbing (before config : Configuration) : Prop :=
  forall id, (config.servers id).session = (before.servers id).session

/-- What the cluster does by itself the servers can do, without a word to a client. -/
theorem Tracks.follow (distinct : peers.Nodup) (tracks : Tracks peers old sent image config)
    {event : Cluster.Event} {after : Cluster.Configuration}
    (undertakes : Undertakes active team old image event)
    (stepped : image.step peers event = some (after, actions)) :
    Exists fun made => Exists fun answer => Exists fun next =>
      Unnoticed active team sent config made ∧
      config.step peers made = some (next, answer) ∧ Tracks peers old sent after next ∧
      Undisturbing config next := by
  rcases Cluster.Configuration.step_eq_some.mp stepped with ⟨member, enabled, raft, response, rfl⟩
  let server : Server := { config.servers event.actor with
    node := (config.servers event.actor).node.perform raft actions }
  have queued : server.node.outboundMessages = actions.filterMap messageOf := by
    change (config.servers event.actor).node.outboundMessages ++ _ = _
    rw [tracks.projects.drained, List.nil_append]
  have moved : Tracks peers old sent (image.install event.actor raft actions)
      (config.install peers event.actor server) :=
    tracks.moves distinct rfl member enabled response queued
  have undisturbing : Undisturbing config (config.install peers event.actor server) := by
    intro id
    by_cases acting : id = event.actor
    · subst acting
      rw [Configuration.install_servers_self]
    · rw [Configuration.install_servers_of_ne peers config server acting]
  have own : image.nodes event.actor = (config.servers event.actor).node.raft :=
    congrFun tracks.projects.nodes event.actor
  cases event with
  | tick id =>
      have called : (config.servers id).node.raft.tick = .ok (raft, actions) := by
        rw [show (config.servers id).node.raft = image.nodes id from own.symm]
        exact response
      exact ⟨.tick id, none, _, undertakes, Configuration.step_eq_some.mpr
        ⟨member, True.intro, server, Server.respond_tick called, rfl⟩, moved, undisturbing⟩
  | deliver packet =>
      have called : dispatch (config.servers packet.recipient).node.raft packet.message =
          .ok (raft, actions) := by
        rw [show (config.servers packet.recipient).node.raft = image.nodes packet.recipient from
          own.symm]
        exact response
      rcases undertakes with ⟨listed, recently⟩
      rw [tracks.recent] at recently
      exact ⟨.deliver packet, none, _, ⟨listed, recently⟩, Configuration.step_eq_some.mpr
        ⟨member, List.mem_of_mem_drop recently, server, Server.respond_deliver called, rfl⟩, moved,
        undisturbing⟩
  | propose id command => exact undertakes.elim
  | restart id => exact undertakes.elim

/-- What the cluster can reach by itself the servers can reach, without a word to a
client. -/
theorem Tracks.can_reach (distinct : peers.Nodup) (tracks : Tracks peers old sent image config)
    (run : Run peers history config) {Goal : Cluster.Configuration -> Prop}
    (reaches : forall past, Cluster.Run peers past image ->
      (system peers).CanReach (Undertakes active team old) past Goal) :
    (service peers).CanReach (Unnoticed active team sent) history (fun next => Exists fun after =>
      Goal after ∧ Tracks peers old sent after next ∧ Undisturbing config next) := by
  have follows : forall history state history' state' event output after,
      (system peers).Run history state -> (service peers).Run history' state' ->
      (Tracks peers old sent state state' ∧ Undisturbing config state') ->
      Undertakes active team old state event ->
      (system peers).step state event = some (after, output) ->
      Exists fun made => Exists fun answer => Exists fun next =>
        Unnoticed active team sent state' made ∧
        (service peers).step state' made = some (next, answer) ∧
        (Tracks peers old sent after next ∧ Undisturbing config next) := by
    rintro _ _ _ _ _ _ _ _ _ ⟨tracks, undisturbing⟩ undertakes stepped
    rcases tracks.follow distinct undertakes stepped with
      ⟨made, answer, next, unnoticed, taken, tracked, still⟩
    exact ⟨made, answer, next, unnoticed, taken, tracked,
      fun id => (still id).trans (undisturbing id)⟩
  rcases tracks.run with ⟨past, ran⟩
  refine (System.CanReach.follow (starts_unique peers) follows ran run ⟨tracks, fun _ => rfl⟩
    (reaches past ran)).mono ?_
  rintro next ⟨_, after, _, holds, tracked, still⟩
  exact ⟨after, holds, tracked, still⟩

end Continuing

/-- Before a client can ask, the server may have to give up on an earlier one. -/
def Preparing (id : Nat) (team : List Nat) (sent : Nat) (config : Configuration) (event : Event) :
    Prop :=
  Unnoticed id team sent config event ∨ event = .poll id true

/-- The run can be continued so that a client is served: it asks, then time passes at its
server and packets arrive, and then it is answered.  Only the servers of the team take
part, and only packets that are sent on the way arrive. -/
def CanServe (peers team : List Nat) (history : List Transition) (config : Configuration)
    (id : Nat) (command : Command) (answer : Response) : Prop :=
  Exists fun early => Exists fun free => Exists fun taken => Exists fun late =>
    Exists fun waiting => Exists fun final =>
      Meets (Preparing id team config.network.length) early ∧
      Meets (Unnoticed id team config.network.length) late ∧
      Run peers (⟨waiting, .poll id false, some answer, final⟩ ::
        (late ++ ⟨free, .client id command, none, taken⟩ :: (early ++ history))) final

section Serving

variable {peers team : List Nat} {history : List Transition} {config : Configuration}
  {image : Cluster.Configuration} {id : Nat} {server : Server} {command : Command}
  {logged : LogCommand} {ok : Response} {raft : RaftNode} {actions : List Action} {old sent : Nat}

/-! ## Serving a client -/

/-- A server can come to be free for the next client. -/
theorem Tracks.can_free (tracks : Tracks peers old sent image config)
    (run : Run peers history config) (member : id ∈ peers) :
    Exists fun early => Exists fun free =>
      Run peers (early ++ history) free ∧ Meets (Preparing id team sent) early ∧
      Tracks peers old sent image free ∧ (free.servers id).session = none := by
  cases session : (config.servers id).session with
  | none => exact ⟨[], config, run, fun _ listed => (List.not_mem_nil listed).elim, tracks, session⟩
  | some waiting =>
      have given : Exists fun answer => (config.servers id).awaitCommit waiting true =
          ({ config.servers id with session := none }, some answer) := by
        unfold Server.awaitCommit
        split
        · exact ⟨_, rfl⟩
        · exact ⟨_, if_pos rfl⟩
      rcases given with ⟨answer, given⟩
      have responded : (config.servers id).respond peers (.poll id true) =
          some ({ config.servers id with session := none }, some answer) :=
        Option.map_eq_some_iff.mpr ⟨waiting, session, given⟩
      have stepped : config.step peers (.poll id true) =
          some (config.install peers id { config.servers id with session := none }, some answer) :=
        Configuration.step_eq_some.mpr ⟨member, True.intro, _, responded, rfl⟩
      refine ⟨[_], _, run.next stepped, ?_, tracks.rests rfl (tracks.projects.drained id), ?_⟩
      · intro transition listed
        rw [List.mem_singleton.mp listed]
        exact Or.inr rfl
      · rw [Configuration.install_servers_self]

/-- A leader without a router takes a write in and has the client wait. -/
theorem Server.ask_of_leader (alone : server.node.router = none)
    (leads : server.node.raft.state.role = .leader)
    (written : command.written = some (logged, ok))
    (proposed : server.node.raft.propose logged = .ok (raft, some actions)) :
    server.ask command = .ok (⟨{ server.node.perform raft actions with
      pendingCommitIndex := some raft.state.log.lastIndex },
      some ⟨raft.state.log.lastIndex, ok⟩⟩, none) := by
  have here := ClusterNode.moved_of_alone alone
  have write : ({ server.node with pendingCommitIndex := none } : ClusterNode).write logged ok =
      .ok ({ server.node.perform raft actions with
        pendingCommitIndex := some raft.state.log.lastIndex }, ok) := by
    unfold ClusterNode.write
    rw [if_neg (not_not.mpr leads)]
    refine Outcome.bind_eq_ok.mpr ⟨_, proposed, ?_⟩
    simp only [ClusterNode.processActions_eq]
    rfl
  have handled : server.node.handleClientCommand command =
      .ok ({ server.node.perform raft actions with
        pendingCommitIndex := some raft.state.log.lastIndex }, ok) := by
    cases command with
    | set key value =>
        cases written
        simp only [ClusterNode.handleClientCommand, here]
        exact write
    | del key =>
        cases written
        simp only [ClusterNode.handleClientCommand, here]
        exact write
    | get key => cases written
    | ping => cases written
    | unknown name => cases written
  exact Outcome.bind_eq_ok.mpr ⟨_, handled, rfl⟩

/-- A leader whose server is free takes a write in.  What is left to do is to replicate
its log. -/
theorem Tracks.can_ask (distinct : peers.Nodup) (tracks : Tracks peers old sent image config)
    (run : Run peers history config) (member : id ∈ peers) {own : List LogEntry} {quorum : List Nat}
    (apart : (id :: quorum).Nodup) (leads : Leads id own quorum image)
    (space : own.length + 2 ≤ vecCapacity) (free : (config.servers id).session = none)
    (written : command.written = some (logged, ok)) :
    Exists fun taken => Exists fun after =>
      Run peers (⟨config, .client id command, none, taken⟩ :: history) taken ∧
      Tracks peers old sent after taken ∧ (taken.servers id).session = some ⟨own.length + 1, ok⟩ ∧
      Drives peers id (own ++ [⟨(image.nodes id).state.currentTerm, logged⟩]) 0 [] quorum after := by
  rcases tracks.run with ⟨past, ran⟩
  rcases Cluster.Run.traces distinct ran with ⟨ledger, traces⟩
  have majority := (traces.simulates.nodes id member).majorityCount_eq
  have own_node : image.nodes id = (config.servers id).node.raft :=
    congrFun tracks.projects.nodes id
  rcases leads.proposes logged space with ⟨emitted, proposed⟩
  have drives := leads.drives apart majority
    (moved_install image id ((image.nodes id).withEntry logged).maybeAdvanceCommitIndex.1 emitted)
  revert proposed drives
  generalize ((image.nodes id).withEntry logged).maybeAdvanceCommitIndex.1 = raft
  intro proposed drives
  have index : raft.state.log.lastIndex = own.length + 1 := by
    have log := drives.log
    rw [Cluster.Configuration.install_nodes_self] at log
    rw [RaftLog.lastIndex_eq_length_body, log]
    exact List.length_append
  let asked : Server := ⟨{ (config.servers id).node.perform raft emitted with
    pendingCommitIndex := some raft.state.log.lastIndex }, some ⟨raft.state.log.lastIndex, ok⟩⟩
  have asking : (config.servers id).ask command = .ok (asked, none) :=
    Server.ask_of_leader (run.unsharded id) (own_node ▸ leads.role) written (own_node ▸ proposed)
  have responded : (config.servers id).respond peers (.client id command) = some (asked, none) := by
    unfold Server.respond
    rw [free]
    exact toOption_eq_some.mpr asking
  have stepped : config.step peers (.client id command) =
      some (config.install peers id asked, none) :=
    Configuration.step_eq_some.mpr ⟨member, True.intro, _, responded, rfl⟩
  have queued : asked.node.outboundMessages = emitted.filterMap messageOf := by
    change (config.servers id).node.outboundMessages ++ _ = _
    rw [tracks.projects.drained id, List.nil_append]
  have proposing : image.respond peers (.propose id logged) = .ok (asked.node.raft, emitted) :=
    Outcome.map_eq_ok.mpr ⟨_, proposed, rfl⟩
  refine ⟨_, _, run.next stepped, ?_, ?_, drives⟩
  · exact tracks.moves distinct (show (Cluster.Event.propose id logged).actor = id from rfl) member
      True.intro proposing queued
  · rw [Configuration.install_servers_self]
    change some (Waiting.mk raft.state.log.lastIndex ok) = _
    rw [index]

/-- A client whose entry is committed is answered at the next look, however late. -/
theorem Configuration.answers (member : id ∈ peers) {index : Nat}
    (waits : (config.servers id).session = some ⟨index, ok⟩)
    (reached : index ≤ (config.raft id).state.commitIndex) (late : Bool) :
    Exists fun next => config.step peers (.poll id late) = some (next, some ok) := by
  have given : (config.servers id).awaitCommit ⟨index, ok⟩ late =
      ({ config.servers id with session := none }, some ok) := if_pos reached
  have responded : (config.servers id).respond peers (.poll id late) =
      some ({ config.servers id with session := none }, some ok) :=
    Option.map_eq_some_iff.mpr ⟨_, waits, given⟩
  exact ⟨_, Configuration.step_eq_some.mpr ⟨member, True.intro, _, responded, rfl⟩⟩

/-- A write that a leader has taken in can come to be acknowledged. -/
theorem Tracks.can_acknowledge (distinct : peers.Nodup)
    (tracks : Tracks peers old sent image config) (run : Run peers history config)
    (member : id ∈ peers) {own : List LogEntry} {quorum : List Nat} {term : Nat}
    (among : forall other, other ∈ quorum -> other ∈ peers)
    (apart : (id :: quorum).Nodup) (size : quorum.length = peers.length / 2)
    (drives : Drives peers id (own ++ [⟨term, logged⟩]) 0 [] quorum image)
    (waits : (config.servers id).session = some ⟨own.length + 1, ok⟩) :
    Exists fun late => Exists fun waiting => Exists fun final =>
      Meets (Unnoticed id (id :: quorum) sent) late ∧
      Run peers (⟨waiting, .poll id false, some ok, final⟩ :: (late ++ history)) final := by
  have within : id :: quorum ⊆ peers := List.cons_subset.mpr ⟨member, among⟩
  rcases tracks.can_reach distinct run (fun past ran => Cluster.Run.can_spread distinct ran
    tracks.since within List.mem_cons_self (fun _ => List.mem_cons_of_mem _) apart size drives) with
    ⟨late, waiting, whole, meets, after, ⟨all, same, replicated⟩, tracked, still⟩
  have reached := replicated.known
  rw [List.length_append, show after.nodes id = waiting.raft id from
    congrFun tracked.projects.nodes id] at reached
  rcases waiting.answers member ((still id).trans waits) reached false with ⟨final, answered⟩
  exact ⟨late, waiting, final, meets, whole.next answered⟩

/-! ## Availability -/

/-- **Writes are available.**  Whatever has happened, a member whose log contains the
logs of enough others to be a majority with them can come to acknowledge any write of a
client, though no one but these members takes part, no packet from before arrives, no
server restarts, and no client but one that the server has left waiting is given up on. -/
theorem writes_available (distinct : peers.Nodup) (run : Run peers history config)
    {candidate : Nat} {quorum : List Nat} (member : candidate ∈ peers)
    (among : forall id, id ∈ quorum -> id ∈ peers) (apart : (candidate :: quorum).Nodup)
    (size : quorum.length = peers.length / 2)
    (parts : forall id, id ∈ quorum ->
      (config.raft id).state.log.body <+: (config.raft candidate).state.log.body)
    (room : forall id, id ∈ candidate :: quorum ->
      (config.raft id).state.currentTerm + 1 < wordSize)
    (space : (config.raft candidate).state.log.entries.length + 1 ≤ vecCapacity)
    (written : command.written = some (logged, ok)) :
    CanServe peers (candidate :: quorum) history config candidate command ok := by
  rcases run.tracks with ⟨image, tracks⟩
  rcases tracks.run with ⟨past, ran⟩
  rcases Cluster.Run.traces distinct ran with ⟨ledger, traces⟩
  have log := (traces.simulates.nodes candidate member).log_eq
  rw [← tracks.projects.nodes] at parts room space
  rw [log] at parts space
  have within : candidate :: quorum ⊆ peers := List.cons_subset.mpr ⟨member, among⟩
  rcases tracks.can_reach distinct run (fun past ran =>
    Cluster.Run.can_lead distinct ran (Nat.le_refl _) within List.mem_cons_self
      (fun _ => List.mem_cons_of_mem _) apart size log room parts) with
    ⟨first, second, run₁, meets₁, leading, leads, tracks₁, _⟩
  rcases tracks₁.can_free run₁ member with ⟨freed, free, run₂, meets₂, tracks₂, session⟩
  rcases tracks₂.can_ask distinct run₂ member apart leads space session written with
    ⟨taken, asked, run₃, tracks₃, waits, drives⟩
  rcases tracks₃.can_acknowledge distinct run₃ member among apart size drives waits with
    ⟨late, waiting, final, meets₃, answered⟩
  refine ⟨freed ++ first, free, taken, late, waiting, final, ?_, meets₃, ?_⟩
  · intro transition listed
    rcases List.mem_append.mp listed with giving | before
    · exact meets₂ transition giving
    · exact Or.inl (meets₁ transition before)
  · rw [List.append_assoc]
    exact answered

set_option maxRecDepth 100000 in
/-- Node 1 leads and has written three times.  Without it, the restarted node 2 can serve
a client together with node 3, which has none of the writes in its log. -/
theorem writes_available_threeWrites :
    Exists fun history => Exists fun final => Run [1, 2, 3] history final ∧
      (final.raft 1).state.role = .leader ∧ (final.raft 3).state.log.body = [] ∧
      CanServe [1, 2, 3] [2, 3] history final 2 (.set "k" "d") (.simpleString "OK") := by
  have checked : (execute [1, 2, 3] threeWrites).any (fun result =>
      decide ((result.2.raft 1).state.role = .leader ∧ (result.2.raft 3).state.log.body = [] ∧
        (result.2.raft 2).state.currentTerm = 1 ∧ (result.2.raft 3).state.currentTerm ≤ 1 ∧
        (result.2.raft 2).state.log.entries.length + 1 ≤ vecCapacity)) = true := by
    decide +kernel
  rcases exists_run checked with ⟨history, final, run, holds⟩
  rcases of_decide_eq_true holds with ⟨leads, empty, second, third, space⟩
  refine ⟨history, final, run, leads, empty, ?_⟩
  refine writes_available (by decide) run (by decide) (by decide) (by decide) (by decide) ?_ ?_
    space rfl
  · intro id listed
    rw [List.mem_singleton.mp listed, empty]
    exact List.nil_prefix
  · have small : 1 + 1 < wordSize := by decide
    intro id listed
    rcases List.mem_cons.mp listed with rfl | other
    · rw [second]
      exact small
    · rw [List.mem_singleton.mp other]
      exact Nat.lt_of_le_of_lt (Nat.succ_le_succ third) small

/-! ## Answers without delay -/

/-- **Clients do not wait for nothing.**  As soon as a leader knows that a majority of the
nodes has an entry of its term, a client that waits for that entry or for an earlier one is
answered at the next look, however late that is. -/
theorem answered_promptly (distinct : peers.Nodup) (run : Run peers history config)
    (member : id ∈ peers) (leads : (config.raft id).state.role = .leader) {index known : Nat}
    {entry : LogEntry} (waits : (config.servers id).session = some ⟨index, ok⟩)
    (before : index ≤ known) (found : (config.raft id).state.log.get known = some entry)
    (current : entry.term = (config.raft id).state.currentTerm)
    (replicated : (config.raft id).state.majorityCount ≤ (config.raft id).replicationCount known)
    (late : Bool) :
    Exists fun next => config.step peers (.poll id late) = some (next, some ok) := by
  rcases run.shadows with ⟨past, image, shadows⟩
  have prompt := shadows.run.prompt distinct id
  rw [show image.nodes id = config.raft id from congrFun shadows.projects.nodes id] at prompt
  apply Configuration.answers member waits
  refine Nat.le_trans before (Nat.le_of_not_lt fun fresh => prompt leads known ⟨fresh, ?_, ?_,
    replicated⟩)
  · rcases List.getElem?_eq_some_iff.mp found with ⟨inside, _⟩
    exact Nat.le_sub_one_of_lt inside
  · rw [← current, RaftLog.termAt, show (config.raft id).state.log.entries[known]? = _ from found]
    rfl

set_option maxRecDepth 100000 in
/-- Node 1 has just heard that node 2 has the third write. -/
theorem answered_promptly_threeWrites :
    Exists fun history => Exists fun final => Run [1, 2, 3] history final ∧
      (final.servers 1).session = some ⟨3, .simpleString "OK"⟩ ∧
      Exists fun next => final.step [1, 2, 3] (.poll 1 true) =
        some (next, some (.simpleString "OK")) := by
  have checked : (execute [1, 2, 3] threeWrites).any (fun result =>
      decide ((result.2.raft 1).state.role = .leader ∧
        (result.2.servers 1).session = some ⟨3, .simpleString "OK"⟩ ∧
        (result.2.raft 1).state.log.get 3 = some ⟨1, .put "j" "c"⟩ ∧
        1 = (result.2.raft 1).state.currentTerm ∧
        (result.2.raft 1).state.majorityCount ≤ (result.2.raft 1).replicationCount 3)) = true := by
    decide +kernel
  rcases exists_run checked with ⟨history, final, run, holds⟩
  rcases of_decide_eq_true holds with ⟨leads, waits, found, current, replicated⟩
  exact ⟨history, final, run, waits, answered_promptly (by decide) run (by decide) leads waits
    (Nat.le_refl 3) found current replicated true⟩

end Serving
end Service
end RaftStore
