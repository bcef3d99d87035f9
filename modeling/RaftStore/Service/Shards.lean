import RaftStore.Service.Application

namespace RaftStore
namespace Service

open Raft Storage Systems Cluster Sharding

/-!
# Shards

Nodes that are given the same shard configurations agree on the shard of every key.
The nodes of that shard take a command on the key, and all others send the client
there without touching anything.

The nodes of one shard group therefore have no other entries in their logs than
those on keys of their shard, in whatever order they act, however their messages are
delivered, and whatever of their files a restart finds.
-/

/-! ## Commands -/

/-- The key a command is on. -/
def Command.key : Command -> Option String
  | .get key => some key
  | .set key _ => some key
  | .del key => some key
  | .ping => none
  | .unknown _ => none

/-- The key that an entry of the log is on. -/
def keyOf : LogCommand -> Option String
  | .put key _ => some key
  | .delete key => some key
  | .noop => none

/-- The client is sent to another shard. -/
def Response.Moved : Response -> Prop
  | .error text => "MOVED".toList <+: text.toList
  | _ => False

instance (response : Response) : Decidable response.Moved :=
  match response with
  | .error _ => inferInstanceAs (Decidable (_ <+: _))
  | .simpleString _ => inferInstanceAs (Decidable False)
  | .bulkString _ => inferInstanceAs (Decidable False)
  | .null => inferInstanceAs (Decidable False)
  | .integer _ => inferInstanceAs (Decidable False)

/-- The answer that names the shard of a key. -/
def movedTo (shardId : Nat) : Response :=
  .error ("MOVED - key belongs to shard " ++ toString shardId)

/-- The node was made by `with_sharding` for a shard of these configurations. -/
structure Serves (configs : List ShardConfig) (shardId : Nat) (node : ClusterNode) : Prop where
  router : node.router = some (.new configs 64)
  shard : node.shardId = shardId

section Commands

variable {configs : List ShardConfig} {shardId owner : Nat} {node after : ClusterNode}
  {key : String} {command : Command} {response : Response}

/-- A key of another shard is found to be there. -/
theorem Serves.moved (serves : Serves configs shardId node)
    (given : (Router.new configs 64).getShardId key = some owner) :
    ({ node with pendingCommitIndex := none } : ClusterNode).moved key =
      if shardId = owner then none else some (movedTo owner) := by
  unfold ClusterNode.moved
  simp only [serves.router, serves.shard, Router.keyBelongsToShard_iff given, given,
    Option.getD_some]
  rfl

/-- A node of another shard only names the shard of the key. -/
theorem Serves.refuses (serves : Serves configs shardId node)
    (given : (Router.new configs 64).getShardId key = some owner) (other : shardId ≠ owner)
    (on : command.key = some key) :
    node.handleClientCommand command =
      .ok ({ node with pendingCommitIndex := none }, movedTo owner) := by
  have elsewhere := serves.moved given
  rw [if_neg other] at elsewhere
  cases command with
  | get wanted =>
      cases on
      simp only [ClusterNode.handleClientCommand, elsewhere]
  | set wanted value =>
      cases on
      simp only [ClusterNode.handleClientCommand, elsewhere]
  | del wanted =>
      cases on
      simp only [ClusterNode.handleClientCommand, elsewhere]
  | ping => cases on
  | unknown name => cases on

/-- A write is answered by the given answer or by an error that names no shard. -/
theorem ClusterNode.write_not_moved {logged : LogCommand} {ok : Response} (plain : ¬ ok.Moved)
    (written : node.write logged ok = .ok (after, response)) : ¬ response.Moved := by
  unfold write at written
  split at written
  · cases written
    decide
  · rcases Outcome.bind_eq_ok.mp written with ⟨⟨raft, proposed⟩, _, returned⟩
    cases proposed with
    | none =>
        cases returned
        decide
    | some actions =>
        cases returned
        exact plain

/-- A node of the shard of the key does not send the client away. -/
theorem Serves.accepts (serves : Serves configs owner node)
    (given : (Router.new configs 64).getShardId key = some owner) (on : command.key = some key)
    (handled : node.handleClientCommand command = .ok (after, response)) : ¬ response.Moved := by
  have here := serves.moved given
  rw [if_pos rfl] at here
  cases command with
  | get wanted =>
      cases on
      simp only [ClusterNode.handleClientCommand, here] at handled
      split at handled <;> cases handled <;> exact id
  | set wanted value =>
      cases on
      simp only [ClusterNode.handleClientCommand, here] at handled
      exact ClusterNode.write_not_moved id handled
  | del wanted =>
      cases on
      simp only [ClusterNode.handleClientCommand, here] at handled
      exact ClusterNode.write_not_moved id handled
  | ping => cases on
  | unknown name => cases on

end Commands

/-! ## A shard group -/

/-- The nodes of a shard group, and the packets they have sent. -/
structure Group where
  nodes : Nat -> ClusterNode
  network : List Packet

/-- What can happen in a shard group: a round of a node, or a new process for it.  The
new process finds any log file, and a state file without the last so many saves. -/
inductive GroupEvent where
  | round (id : Nat) (round : Round)
  | restart (id lost : Nat) (file : ByteArray) (faults : List (Option Fault))

namespace Group

/-- A node receives only what was sent to it. -/
def Enabled (group : Group) (id : Nat) (input : Input) : Prop :=
  forall message, input = .receive message -> Packet.mk id message ∈ group.network

instance (group : Group) (id : Nat) (input : Input) : Decidable (group.Enabled id input) :=
  match input with
  | .receive message =>
      decidable_of_iff (Packet.mk id message ∈ group.network)
        ⟨fun sent _ same => by cases same; exact sent, fun all => all message rfl⟩
  | .tick => isTrue fun _ impossible => nomatch impossible
  | .client _ => isTrue fun _ impossible => nomatch impossible
  | .drain => isTrue fun _ impossible => nomatch impossible

/-- What a node sends in a round: what was queued, when the queue is drained. -/
def sent (peers : List Nat) (id : Nat) (node : ClusterNode) : Input -> List Packet
  | .drain => sendMessages peers id node.outboundMessages
  | _ => []

/-- One step of the group, with the response to a client. -/
def step (peers : List Nat) (shardId : Nat) (configs : List ShardConfig) (group : Group) :
    GroupEvent -> Option (Group × Option Response)
  | .round id round =>
      if group.Enabled id round.input then
        (((group.nodes id).onDisk round.faults).handle round.input).toOption.map fun result =>
          (⟨Function.update group.nodes id result.1,
            group.network ++ sent peers id (group.nodes id) round.input⟩, result.2)
      else none
  | .restart id lost file faults =>
      let saves := (savesOf (group.nodes id).raft).drop lost
      (ClusterNode.withSharding id peers ⟨saves⟩ file faults shardId configs).toOption.map
        fun node => (⟨Function.update group.nodes id node, group.network⟩, none)

end Group

/-- A shard group as a system.  Its nodes begin without a state file. -/
def shardGroup (peers : List Nat) (shardId : Nat) (configs : List ShardConfig) :
    System Group GroupEvent (Option Response) where
  Starts group := group.network = [] ∧ forall id, Exists fun file => Exists fun faults =>
    ClusterNode.withSharding id peers .new file faults shardId configs = .ok (group.nodes id)
  step := Group.step peers shardId configs

/-- The entry is on no key of another shard. -/
def Owned (configs : List ShardConfig) (shardId : Nat) (entry : LogEntry) : Prop :=
  forall key, keyOf entry.command = some key ->
    (Router.new configs 64).keyBelongsToShard key shardId = true

/-! ## Where entries are -/

/-- A message carries only such entries. -/
def CarriesOnly (Good : LogEntry -> Prop) : NetworkMessage -> Prop
  | .appendEntries _ request => forall entry, entry ∈ request.entries -> Good entry
  | _ => True

/-- A node holds only such entries: in its log, in the states it has saved, and in its
queue. -/
structure HoldsOnly (Good : LogEntry -> Prop) (node : ClusterNode) : Prop where
  steady : Steady node.raft
  loadable : KeepsLoadable node.raft
  logs : RaftNode.LogsOnly Good node.raft
  saves : forall state, state ∈ savesOf node.raft -> forall entry, entry ∈ state.log -> Good entry
  queue : forall sender message, message ∈ node.outboundMessages ->
    CarriesOnly Good (networkMessage sender message.payload)

section Entries

variable {Good : LogEntry -> Prop} {node after : ClusterNode}

/-- The queued messages of actions that send only good entries. -/
theorem carriesOnly_of_sendsOnly {actions : List Action}
    (sends : RaftNode.SendsOnly Good actions) {message : PeerMessage}
    (queued : message ∈ actions.filterMap messageOf) (sender : Nat) :
    CarriesOnly Good (networkMessage sender message.payload) := by
  rcases List.mem_filterMap.mp queued with ⟨action, listed, same⟩
  cases action with
  | sendAppendEntries recipient request =>
      cases same
      exact sends recipient request listed
  | applyEntry index command => cases same
  | _ =>
      cases same
      trivial

/-- A call on the Raft node whose actions are processed. -/
theorem HoldsOnly.perform (holds : HoldsOnly Good node) {call : Call} {raft : RaftNode}
    {actions : List Action} (called : call.run node.raft = .ok (raft, actions))
    (passes : RaftNode.Passes Good raft actions) : HoldsOnly Good (node.perform raft actions) := by
  have maintains := holds.steady.maintains_call called
  refine ⟨maintains.steady, maintains.loadable holds.steady holds.loadable, passes.logs, ?_, ?_⟩
  · intro state member entry listed
    rcases maintains.logs state member with older | before | behind
    · exact holds.saves state older entry listed
    · rw [before] at listed
      exact holds.logs entry listed
    · rw [behind] at listed
      exact passes.logs entry listed
  · intro sender message queued
    rcases List.mem_append.mp queued with old | new
    · exact holds.queue sender message old
    · exact carriesOnly_of_sendsOnly passes.sends new sender

theorem HoldsOnly.congr (holds : HoldsOnly Good node) (raft : after.raft = node.raft)
    (queue : after.outboundMessages ⊆ node.outboundMessages) : HoldsOnly Good after := by
  refine ⟨?_, ?_, ?_, ?_, fun sender message queued => holds.queue sender message (queue queued)⟩
  · rw [raft]
    exact holds.steady
  · rw [raft]
    exact holds.loadable
  · rw [raft]
    exact holds.logs
  · rw [raft]
    exact holds.saves

/-- What an input makes of good entries, if it brings no others. -/
theorem HoldsOnly.handle (holds : HoldsOnly Good node) {input : Input} {answer : Option Response}
    (receives : forall message, input = .receive message -> CarriesOnly Good message)
    (writes : forall command logged response, input = .client command ->
      node.handleClientCommand command = .ok (after, response) ->
      command.written = some (logged, response) -> forall term, Good ⟨term, logged⟩)
    (handled : node.handle input = .ok (after, answer)) :
    HoldsOnly Good after ∧ after.router = node.router ∧ after.shardId = node.shardId := by
  cases input with
  | tick =>
      rcases Outcome.map_eq_ok.mp handled with ⟨ticked, ok, equal⟩
      cases equal
      rcases ClusterNode.tick_eq_ok ok with ⟨raft, actions, called, rfl⟩
      have ran : Call.tick.run node.raft = .ok (raft, actions) := called
      exact ⟨holds.perform ran (RaftNode.tick_passes holds.logs called), rfl, rfl⟩
  | client command =>
      rcases Outcome.map_eq_ok.mp handled with ⟨⟨reached, response⟩, ok, equal⟩
      cases equal
      rcases ClusterNode.handleClientCommand_eq_ok ok with
        rfl | ⟨logged, written, raft, actions, called, rfl⟩
      · exact ⟨holds.congr rfl (List.Subset.refl _), rfl, rfl⟩
      · have ran : (Call.propose logged).run node.raft = .ok (raft, actions) :=
          Outcome.map_eq_ok.mpr ⟨_, called, rfl⟩
        have good := writes command logged response rfl ok written
        have performed := holds.perform ran (RaftNode.propose_passes holds.logs good called)
        exact ⟨performed.congr rfl (List.Subset.refl _), rfl, rfl⟩
  | receive message =>
      rcases Outcome.map_eq_ok.mp handled with ⟨dispatched, ok, equal⟩
      cases equal
      rcases ClusterNode.dispatchMessage_eq_ok ok with ⟨raft, actions, called, rfl⟩
      have ran : (Call.receive message).run node.raft = .ok (raft, actions) := called
      refine ⟨holds.perform ran (passes_dispatch holds.logs ?_ called), rfl, rfl⟩
      rintro sender request rfl
      exact receives _ rfl
  | drain =>
      cases handled
      exact ⟨holds.congr rfl (List.nil_subset _), rfl, rfl⟩

/-- A new process holds what the state file does. -/
theorem holdsOnly_withSharding {id shardId : Nat} {peers : List Nat} {persister : StatePersister}
    {file : ByteArray} {faults : List (Option Fault)} {configs : List ShardConfig}
    (atStart : Good sentinel)
    (loadable : forall state, state ∈ persister.saves -> Loadable state)
    (good : forall state, state ∈ persister.saves -> forall entry, entry ∈ state.log -> Good entry)
    (started : ClusterNode.withSharding id peers persister file faults shardId configs = .ok node) :
    HoldsOnly Good node ∧ Serves configs shardId node := by
  rcases ClusterNode.withSharding_eq_ok started with ⟨storage, _, rfl⟩
  have among : forall state, (.ok persister.load : Except Unit _) = .ok (some state) ->
      state ∈ persister.saves := by
    intro state loaded
    exact List.mem_of_mem_head? (Except.ok.inj loaded)
  have saves : savesOf (RaftNode.withPersistence id peers persister
      (.ok persister.load : Except Unit _)) = persister.saves := by
    unfold RaftNode.withPersistence
    split <;> rfl
  refine ⟨⟨steady_withPersistence id peers persister fun state loaded =>
    loadable state (among state loaded), ?_, ?_, ?_, ?_⟩, rfl, rfl⟩
  · intro state member
    exact loadable state (saves ▸ member)
  · intro entry listed
    change entry ∈ (RaftNode.withPersistence id peers persister
      (.ok persister.load : Except Unit _)).state.log.entries at listed
    unfold RaftNode.withPersistence at listed
    split at listed
    · next state loaded =>
        change entry ∈ (RaftLog.fromEntries state.log).entries at listed
        unfold RaftLog.fromEntries at listed
        split at listed
        · rw [List.mem_singleton.mp listed]
          exact atStart
        · exact good state (among state loaded) entry listed
    · rw [List.mem_singleton.mp listed]
      exact atStart
  · intro state member
    exact good state (saves ▸ member)
  · exact fun _ _ queued => (List.not_mem_nil queued).elim

end Entries

/-! ## Runs -/

section Runs

variable {configs : List ShardConfig} {peers : List Nat} {shardId : Nat}

theorem owned_sentinel : Owned configs shardId sentinel :=
  fun _ impossible => nomatch impossible

/-- What a node of a shard proposes is on a key of the shard. -/
theorem Serves.owned (nonempty : configs ≠ []) {node after : ClusterNode}
    (serves : Serves configs shardId node) {command : Command} {logged : LogCommand}
    {response : Response} (handled : node.handleClientCommand command = .ok (after, response))
    (writes : command.written = some (logged, response)) (term : Nat) :
    Owned configs shardId ⟨term, logged⟩ := by
  intro key on
  have asked : command.key = some key := by
    cases command <;> cases writes <;> exact on
  rcases Router.getShardId_new nonempty (by decide : 0 < 64) key with ⟨owner, _, given⟩
  by_cases here : shardId = owner
  · exact (Router.keyBelongsToShard_iff given shardId).mpr here
  · rw [serves.refuses given here asked] at handled
    cases handled
    cases command <;> cases writes

/-- All entries that are anywhere in a shard group are on its keys. -/
structure Confined (configs : List ShardConfig) (shardId : Nat) (group : Group) : Prop where
  nodes : forall id, HoldsOnly (Owned configs shardId) (group.nodes id) ∧
    Serves configs shardId (group.nodes id)
  packets : forall packet, packet ∈ group.network ->
    CarriesOnly (Owned configs shardId) packet.message

theorem Confined.update {group : Group} (confined : Confined configs shardId group) {id : Nat}
    {node : ClusterNode}
    (good : HoldsOnly (Owned configs shardId) node ∧ Serves configs shardId node)
    {more : List Packet}
    (packets : forall packet, packet ∈ more -> CarriesOnly (Owned configs shardId) packet.message) :
    Confined configs shardId ⟨Function.update group.nodes id node, group.network ++ more⟩ := by
  refine ⟨fun other => ?_, fun packet listed => ?_⟩
  · dsimp only
    by_cases acting : other = id
    · rw [acting, Function.update_self]
      exact good
    · rw [Function.update_of_ne acting]
      exact confined.nodes other
  · rcases List.mem_append.mp listed with old | new
    · exact confined.packets packet old
    · exact packets packet new

theorem Confined.step (nonempty : configs ≠ []) {group next : Group} {event : GroupEvent}
    {answer : Option Response} (confined : Confined configs shardId group)
    (stepped : group.step peers shardId configs event = some (next, answer)) :
    Confined configs shardId next := by
  cases event with
  | round id round =>
      rcases confined.nodes id with ⟨holds, serves⟩
      simp only [Group.step] at stepped
      split at stepped
      · next enabled =>
          rcases Option.map_eq_some_iff.mp stepped with ⟨⟨after, given⟩, returned, equal⟩
          cases equal
          have handled := toOption_eq_some.mp returned
          have onDisk : HoldsOnly (Owned configs shardId)
              ((group.nodes id).onDisk round.faults) :=
            holds.congr rfl (List.Subset.refl _)
          have servesOnDisk : Serves configs shardId ((group.nodes id).onDisk round.faults) :=
            ⟨serves.router, serves.shard⟩
          have good := onDisk.handle
            (fun message received => confined.packets _ (enabled message received))
            (fun command logged response _ ok writes => servesOnDisk.owned nonempty ok writes)
            handled
          refine confined.update ⟨good.1, good.2.1.trans serves.router, good.2.2.trans serves.shard⟩ ?_
          intro packet sent
          cases input : round.input with
          | drain =>
              rw [input] at sent
              rcases List.mem_filterMap.mp sent with ⟨message, queued, same⟩
              split at same
              · cases same
                exact holds.queue id message queued
              · cases same
          | tick =>
              rw [input] at sent
              exact (List.not_mem_nil sent).elim
          | client command =>
              rw [input] at sent
              exact (List.not_mem_nil sent).elim
          | receive message =>
              rw [input] at sent
              exact (List.not_mem_nil sent).elim
      · cases stepped
  | restart id lost file faults =>
      rcases confined.nodes id with ⟨holds, _⟩
      rcases Option.map_eq_some_iff.mp stepped with ⟨node, returned, equal⟩
      cases equal
      have good := holdsOnly_withSharding owned_sentinel
        (fun state member => holds.loadable state (List.mem_of_mem_drop member))
        (fun state member => holds.saves state (List.mem_of_mem_drop member))
        (toOption_eq_some.mp returned)
      have updated : Confined configs shardId
          ⟨Function.update group.nodes id node, group.network ++ []⟩ :=
        confined.update good (fun _ impossible => (List.not_mem_nil impossible).elim)
      rw [List.append_nil] at updated
      exact updated

theorem confined_run (nonempty : configs ≠ [])
    {history : List (Systems.Transition Group GroupEvent (Option Response))} {group : Group}
    (run : (shardGroup peers shardId configs).Run history group) :
    Confined configs shardId group := by
  induction run with
  | start begins =>
      rcases begins with ⟨silent, started⟩
      refine ⟨fun id => ?_, fun packet listed => ?_⟩
      · rcases started id with ⟨file, faults, started⟩
        exact holdsOnly_withSharding owned_sentinel
          (fun _ impossible => (List.not_mem_nil impossible).elim)
          (fun _ impossible => (List.not_mem_nil impossible).elim) started
      · rw [silent] at listed
        exact (List.not_mem_nil listed).elim
  | next _ stepped inductionHypothesis => exact inductionHypothesis.step nonempty stepped

/-- **Sharding is a partition.**  Among nodes with the same configurations every key
has one shard.  A node of this shard does not send the client away; a node of any
other names this shard and leaves everything alone but the pending index, which it
clears.  In every run of a shard group its nodes go on serving their shard, and every
entry of their logs is on a key of it. -/
theorem sharding_partitions (nonempty : configs ≠ []) :
    (forall key, Exists fun owner => owner ∈ configs.map ShardConfig.shardId ∧
      (forall shardId, (Router.new configs 64).keyBelongsToShard key shardId = true <->
        shardId = owner) ∧
      forall shardId node command, Serves configs shardId node -> command.key = some key ->
        (shardId = owner -> forall after response,
          node.handleClientCommand command = .ok (after, response) -> ¬ response.Moved) ∧
        (shardId ≠ owner -> node.handleClientCommand command =
          .ok ({ node with pendingCommitIndex := none }, movedTo owner))) ∧
    forall peers shardId history group, (shardGroup peers shardId configs).Run history group ->
      forall id, Serves configs shardId (group.nodes id) ∧
        forall entry, entry ∈ (group.nodes id).raft.state.log.entries ->
          Owned configs shardId entry := by
  refine ⟨fun key => ?_, fun peers shardId history group run id => ?_⟩
  · rcases Router.getShardId_new nonempty (by decide : 0 < 64) key with ⟨owner, member, given⟩
    refine ⟨owner, member, Router.keyBelongsToShard_iff given, ?_⟩
    intro shardId node command serves on
    refine ⟨?_, fun other => serves.refuses given other on⟩
    rintro rfl after response handled
    exact serves.accepts given on handled
  · have confined := confined_run nonempty run
    exact ⟨(confined.nodes id).2, (confined.nodes id).1.logs⟩

end Runs

/-- Two shards. -/
def twoShards : List ShardConfig := [⟨1, [2], none⟩, ⟨2, [1], none⟩]

/-- The only node of the second shard, on an empty directory. -/
def secondShard : Group where
  nodes := fun id => .assemble (RaftNode.withPersistence id [1] .new (.ok none : Except Unit _))
    StorageEngine.empty (some (.new twoShards 64)) 2
  network := []

theorem secondShard_starts : (shardGroup [1] 2 twoShards).Starts secondShard := by
  refine ⟨rfl, fun id => ⟨ByteArray.empty, [], ?_⟩⟩
  unfold ClusterNode.withSharding
  rw [StorageEngine.new_empty]
  rfl

set_option maxRecDepth 100000 in
/-- The node elects itself, sends the client away with one key, and takes another. -/
theorem sharding_partitions_second :
    twoShards ≠ [] ∧ Exists fun history => Exists fun group =>
      (shardGroup [1] 2 twoShards).Run history group ∧
      (group.nodes 1).raft.state.log.body = [⟨1, .put "name" "v"⟩] ∧
      history.head?.bind Systems.Transition.output = some (movedTo 1) ∧
      Owned twoShards 2 ⟨1, .put "name" "v"⟩ := by
  have nonempty : twoShards ≠ [] := List.cons_ne_nil _ _
  have checked : ((shardGroup [1] 2 twoShards).execute
      (List.replicate 60 (.round 1 ⟨.tick, []⟩) ++ [.round 1 ⟨.client (.set "name" "v"), [none]⟩,
        .round 1 ⟨.client (.set "k" "v"), []⟩]) secondShard).any (fun result =>
        decide ((result.2.nodes 1).raft.state.log.entries = [sentinel, ⟨1, .put "name" "v"⟩] ∧
          result.1.head?.bind Systems.Transition.output = some (movedTo 1))) = true := by
    decide +kernel
  rcases System.exists_run secondShard_starts checked with ⟨history, group, run, holds⟩
  rcases of_decide_eq_true holds with ⟨log, answered⟩
  have body : (group.nodes 1).raft.state.log.body = [⟨1, .put "name" "v"⟩] := by
    rw [RaftLog.body, log]
    rfl
  refine ⟨nonempty, history, group, run, body, answered, ?_⟩
  refine ((sharding_partitions nonempty).2 [1] 2 history group run 1).2 _ ?_
  rw [log]
  exact List.mem_cons_of_mem _ List.mem_cons_self

end Service
end RaftStore
