import RaftStore.Cluster.Calls
import RaftStore.Service.Recovery

namespace RaftStore
namespace Service

open Raft Storage Systems Cluster Collections

/-!
# One cluster node

One cluster node in one lifetime, under any ticks, commands and messages.  Each
round comes with what the disk does in it, one outcome for each append.

The Raft node counts an entry as applied before the storage engine has taken it,
and an error of the engine is only reported.  The map that the engine shows is
therefore that of the applied entries as long as no append fails and no accepted
request replaces an entry that has been applied.
-/

/-! ## Messages that break a node -/

section Robustness

variable {id : Nat} {peers : List Nat} {node : RaftNode}

/-- A dispatched message returns when its Raft handler does. -/
theorem dispatchMessage_returns (server : ClusterNode) (message : NetworkMessage) :
    (Exists fun after => server.dispatchMessage message = .ok after) <->
      Exists fun result => (Call.receive message).run server.raft = .ok result :=
  Outcome.returns_bind fun _ => ⟨_, rfl⟩

/-- **Any messages.**  A node in any state it can reach withstands exactly those
sequences of messages, ticks and proposals in which each call is safe where it is
made.  The dispatch of a message to a cluster node adds no further panic. -/
theorem withstands_iff_safe (reached : Reached id peers node) (calls : List Call) :
    (Withstands node calls <-> SafeAlong node calls) ∧
    forall (server : ClusterNode) (message : NetworkMessage), server.raft = node ->
      ((Exists fun after => server.dispatchMessage message = .ok after) <->
        (Call.receive message).Safe node) := by
  refine ⟨reached.steady.withstands_iff calls, ?_⟩
  rintro server message rfl
  rw [dispatchMessage_returns, reached.steady.returns_iff]

end Robustness

/-- A request behind the last index that exists, to a node without entries. -/
def unreachable : Call :=
  .receive (.appendEntries 2 ⟨1, 2, wordSize - 1, 0, [⟨1, .noop⟩], 0⟩)

theorem reached_new (id : Nat) (peers : List Nat) : Reached id peers (RaftNode.new id peers) :=
  Or.inl ⟨[], .start (Or.inl rfl)⟩

/-- The consistency check passes at an index that the log does not reach, and the
index behind it does not fit a word. -/
theorem withstands_not_unreachable :
    ¬ forall node, Reached 1 [1, 2, 3] node -> forall calls : List Call, Withstands node calls := by
  intro withstands
  have reached := reached_new 1 [1, 2, 3]
  have safe := (reached.steady.withstands_iff [unreachable]).mp
    (withstands _ reached [unreachable])
  have fits := (safe.1 (by decide) (by decide) (by decide)).1
  exact absurd fits (by decide)

/-- The same request at an index that fits: the node takes it without harm, and a
commit index that no log reaches as well. -/
theorem withstands_reachable :
    Reached 1 [1, 2, 3] (RaftNode.new 1 [1, 2, 3]) ∧
      Withstands (RaftNode.new 1 [1, 2, 3])
        [.receive (.appendEntries 2 ⟨1, 2, 7, 0, [⟨1, .noop⟩], wordSize - 1⟩), .tick] := by
  have reached := reached_new 1 [1, 2, 3]
  refine ⟨reached, (withstands_iff_safe reached _).1.mpr ⟨?_, ?_⟩⟩
  · exact fun _ _ _ => ⟨by decide, by decide⟩
  · intro after actions ran
    cases ran
    exact ⟨fun _ _ => by decide, fun _ _ _ => trivial⟩

/-! ## One lifetime -/

/-- What is asked of a cluster node: a tick, a client command, a peer message, or to
hand over the queued messages. -/
inductive Input where
  | tick
  | client (command : Command)
  | receive (message : NetworkMessage)
  | drain
  deriving DecidableEq, Repr

/-- An input, and how the appends go that it causes. -/
structure Round where
  input : Input
  faults : List (Option Fault)
  deriving DecidableEq, Repr

namespace ClusterNode

/-- The node on a disk with these outcomes to come. -/
def onDisk (node : ClusterNode) (faults : List (Option Fault)) : ClusterNode :=
  { node with storage := { node.storage with wal := { node.storage.wal with faults := faults } } }

/-- What a node makes of an input, with the response to a client. -/
def handle (node : ClusterNode) : Input -> Outcome (ClusterNode × Option Response)
  | .tick => node.tick.map fun after => (after, none)
  | .client command =>
      (node.handleClientCommand command).map fun result => (result.1, some result.2)
  | .receive message => (node.dispatchMessage message).map fun after => (after, none)
  | .drain => .ok (node.takeOutboundMessages.1, none)

/-- One round.  No outcome is listed that the disk did not have. -/
def undergo (node : ClusterNode) (round : Round) : Option (ClusterNode × Option Response) :=
  match (node.onDisk round.faults).handle round.input with
  | .ok (after, answer) => if after.storage.wal.faults.isEmpty then some (after, answer) else none
  | .error _ => none

end ClusterNode

/-- One lifetime of a cluster node as a system. -/
def lifetime (first : ClusterNode) : System ClusterNode Round (Option Response) where
  Starts node := node = first
  step := ClusterNode.undergo

/-- The node has just come up, with or without sharding, on any files. -/
def Started (node : ClusterNode) : Prop :=
  Exists fun id => Exists fun peers => Exists fun persister => Exists fun file =>
    Exists fun faults => ClusterNode.new id peers persister file faults = .ok node ∨
      Exists fun shardId => Exists fun configs =>
        ClusterNode.withSharding id peers persister file faults shardId configs = .ok node

/-- The map that a node shows is that of the applied entries, on top of what its
storage held at the start. -/
def Shows (first node : ClusterNode) : Prop :=
  node.storage.get = overwrite first.storage.get
    (writesOf (node.raft.state.log.body.take node.raft.state.lastApplied))

/-- What a committed entry wrote is found, unless a later committed entry has
written there. -/
def Visible (node : ClusterNode) : Prop :=
  forall index entry key value, node.raft.state.log.get (index + 1) = some entry ->
    index < node.raft.state.commitIndex -> writeOf entry.command = some (key, value) ->
    (forall later other, index < later -> later < node.raft.state.commitIndex ->
      node.raft.state.log.get (later + 1) = some other ->
      forall written, writeOf other.command ≠ some (key, written)) ->
    node.storage.get key = value

/-- An accepted request does not conflict with what has been applied. -/
def Harmless (node : ClusterNode) : Input -> Prop
  | .receive (.appendEntries _ request) => Accepts node.raft request ->
      ¬ RaftNode.Conflicts node.raft.state.log request node.raft.state.lastApplied
  | _ => True

instance (node : ClusterNode) (input : Input) : Decidable (Harmless node input) :=
  match input with
  | .receive (.appendEntries _ _) => inferInstanceAs (Decidable (_ -> _))
  | .receive (.appendEntriesResponse _ _) => inferInstanceAs (Decidable True)
  | .receive (.requestVote _ _) => inferInstanceAs (Decidable True)
  | .receive (.requestVoteResponse _ _) => inferInstanceAs (Decidable True)
  | .tick => inferInstanceAs (Decidable True)
  | .client _ => inferInstanceAs (Decidable True)
  | .drain => inferInstanceAs (Decidable True)

/-- No append fails in the round, and no applied entry is replaced. -/
def Unfailing (node : ClusterNode) (round : Round) : Prop :=
  (forall fault, fault ∈ round.faults -> fault = none) ∧ Harmless node round.input

instance (node : ClusterNode) (round : Round) : Decidable (Unfailing node round) :=
  inferInstanceAs (Decidable (_ ∧ _))

section Lifetime

variable {first node after : ClusterNode}

/-- An input leaves the Raft node and the storage alone, or is a call on the Raft
node whose commands are applied. -/
theorem ClusterNode.handle_cases {input : Input} {answer : Option Response}
    (handled : node.handle input = .ok (after, answer)) :
    (after.raft = node.raft ∧ after.storage = node.storage) ∨
    Exists fun call : Call => Exists fun actions => call.run node.raft = .ok (after.raft, actions) ∧
      after.storage = (commandsOf actions).foldl applyCommand node.storage ∧
      forall message, call = .receive message -> input = .receive message := by
  cases input with
  | tick =>
      rcases Outcome.map_eq_ok.mp handled with ⟨ticked, ok, equal⟩
      cases equal
      rcases tick_eq_ok ok with ⟨raft, actions, called, rfl⟩
      exact Or.inr ⟨.tick, actions, called, rfl, fun _ impossible => nomatch impossible⟩
  | client command =>
      rcases Outcome.map_eq_ok.mp handled with ⟨⟨handledNode, response⟩, ok, equal⟩
      cases equal
      rcases handleClientCommand_eq_ok ok with rfl | ⟨logged, _, raft, actions, called, rfl⟩
      · exact Or.inl ⟨rfl, rfl⟩
      · refine Or.inr ⟨.propose logged, actions, ?_, rfl, fun _ impossible => nomatch impossible⟩
        exact Outcome.map_eq_ok.mpr ⟨_, called, rfl⟩
  | receive message =>
      rcases Outcome.map_eq_ok.mp handled with ⟨dispatched, ok, equal⟩
      cases equal
      rcases dispatchMessage_eq_ok ok with ⟨raft, actions, called, rfl⟩
      exact Or.inr ⟨.receive message, actions, called, rfl, fun _ same => by cases same; rfl⟩
  | drain =>
      cases handled
      exact Or.inl ⟨rfl, rfl⟩

theorem undergo_eq_some {round : Round} {answer : Option Response}
    (undergone : node.undergo round = some (after, answer)) :
    (node.onDisk round.faults).handle round.input = .ok (after, answer) := by
  unfold ClusterNode.undergo at undergone
  split at undergone
  · next result given handled =>
      split at undergone
      · cases undergone
        exact handled
      · cases undergone
  · cases undergone

/-- Any call makes progress, if it leaves alone what has been applied. -/
theorem progress_call {raft later : RaftNode} {call : Call} {actions : List Action}
    (ready : raft.Ready) (called : call.run raft = .ok (later, actions))
    (agree : forall sender request, call = .receive (.appendEntries sender request) ->
      Accepts raft request -> ¬ RaftNode.Conflicts raft.state.log request raft.state.lastApplied) :
    RaftNode.Progress raft later actions := by
  cases call with
  | tick => exact ready.tick called
  | propose command =>
      rcases Outcome.map_eq_ok.mp called with ⟨⟨proposed, emitted⟩, ok, equal⟩
      cases equal
      exact ready.propose ok
  | receive message =>
      cases dispatch_handled called with
      | requestVote sender request => exact ready.handleRequestVote request
      | requestVoteResponse sender response =>
          exact ready.handleRequestVoteResponse sender response
      | appendEntries sender request returned =>
          exact ready.handleAppendEntries returned
            (fun current passes => agree sender request rfl ⟨current, passes⟩)
      | appendEntriesResponse sender response returned =>
          exact ready.handleAppendEntriesResponse returned

/-- A node that has just come up has applied nothing. -/
theorem ready_withPersistence (id : Nat) (peers : List Nat) (persister : StatePersister)
    (loaded : Except Unit (Option PersistentState)) :
    (RaftNode.withPersistence id peers persister loaded).Ready ∧
      (RaftNode.withPersistence id peers persister loaded).state.lastApplied = 0 := by
  have nonempty : forall entries, 0 < (RaftLog.fromEntries entries).entries.length := by
    intro entries
    unfold RaftLog.fromEntries
    split
    · exact Nat.one_pos
    · next kept => exact List.length_pos_iff.mpr (fun empty => kept (List.isEmpty_iff.mpr empty))
  unfold RaftNode.withPersistence
  split
  · exact ⟨⟨nonempty _, rfl⟩, rfl⟩
  · exact ⟨⟨Nat.one_pos, rfl⟩, rfl⟩

theorem Started.ready (started : Started first) :
    first.raft.Ready ∧ first.raft.state.lastApplied = 0 := by
  rcases started with ⟨id, peers, persister, file, faults, plain | ⟨shardId, configs, sharded⟩⟩
  · rcases ClusterNode.new_eq_ok plain with ⟨_, _, rfl⟩
    exact ready_withPersistence id peers persister _
  · rcases ClusterNode.withSharding_eq_ok sharded with ⟨_, _, rfl⟩
    exact ready_withPersistence id peers persister _

/-- Progress applies to the map what the newly committed entries write. -/
theorem Shows.progress (shows_ : Shows first node) {raft : RaftNode} {actions : List Action}
    (progress : RaftNode.Progress node.raft raft actions) (sameRaft : after.raft = raft)
    (stored : after.storage.get =
      overwrite node.storage.get ((commandsOf actions).filterMap writeOf)) :
    Shows first after := by
  subst sameRaft
  have bound : after.raft.state.lastApplied ≤ after.raft.state.log.body.length := by
    have inside := progress.ready.inside
    rw [RaftLog.body, List.length_tail]
    omega
  have parts := take_append_drop_take after.raft.state.log.body progress.forward
  rw [progress.kept] at parts
  have written : (commandsOf actions).filterMap writeOf =
      writesOf ((after.raft.state.log.body.take after.raft.state.lastApplied).drop
        node.raft.state.lastApplied) := by
    rw [progress.commands, RaftNode.filterMap_applications writeOf rfl _ bound]
    rfl
  unfold Shows at shows_ ⊢
  rw [stored, shows_, written, ← overwrite_append, ← writesOf_append, parts]

theorem Shows.undergo (shows_ : Shows first node) (ready : node.raft.Ready) {round : Round}
    {answer : Option Response} (unfailing : Unfailing node round)
    (undergone : node.undergo round = some (after, answer)) :
    Shows first after ∧ after.raft.Ready := by
  rcases ClusterNode.handle_cases (undergo_eq_some undergone) with
    ⟨sameRaft, sameStorage⟩ | ⟨call, actions, called, stored, received⟩
  · unfold Shows at shows_ ⊢
    rw [sameRaft, sameStorage]
    exact ⟨shows_, ready⟩
  · have reliable : (node.onDisk round.faults).storage.Reliable := unfailing.1
    have progress : RaftNode.Progress node.raft after.raft actions := by
      apply progress_call ready called
      rintro sender request rfl accepts
      have harmless := unfailing.2
      rw [received _ rfl] at harmless
      exact harmless accepts
    refine ⟨shows_.progress progress rfl ?_, progress.ready⟩
    rw [stored]
    exact (applyCommands_reliable reliable (commandsOf actions)).2

theorem Shows.visible (shows_ : Shows first node) (ready : node.raft.Ready) : Visible node := by
  intro index entry key value found committed writes last
  rw [RaftLog.get_succ] at found
  rw [ready.commit] at committed last
  rcases List.getElem?_eq_some_iff.mp found with ⟨here, rfl⟩
  let rest := (node.raft.state.log.body.take node.raft.state.lastApplied).drop (index + 1)
  have parts : node.raft.state.log.body.take node.raft.state.lastApplied =
      node.raft.state.log.body.take index ++ node.raft.state.log.body[index] :: rest := by
    rw [← take_append_drop_take _ committed, List.take_succ_eq_append_getElem here,
      List.append_assoc]
    rfl
  have absent : key ∉ (writesOf rest).map Prod.fst := by
    intro listed
    rcases List.mem_map.mp listed with ⟨⟨_, written⟩, member, rfl⟩
    rcases List.mem_filterMap.mp member with ⟨other, inside, same⟩
    rcases List.mem_iff_getElem?.mp inside with ⟨offset, place⟩
    rw [List.getElem?_drop] at place
    have below : index + 1 + offset < node.raft.state.lastApplied := by
      by_contra beyond
      rw [List.getElem?_eq_none (by rw [List.length_take]; omega)] at place
      cases place
    rw [List.getElem?_take_of_lt below] at place
    refine last (index + 1 + offset) other (by omega) below ?_ written same
    rw [RaftLog.get_succ]
    exact place
  unfold Shows at shows_
  rw [shows_, parts, writesOf_append, overwrite_append]
  have first : writesOf (node.raft.state.log.body[index] :: rest) = (key, value) :: writesOf rest :=
    List.filterMap_cons_some writes
  rw [first]
  exact (overwrite_of_notMem _ absent).trans (Function.update_self _ _ _)

/-- **Applied means stored.**  In every run of a node in which no append fails and
no applied entry is replaced, the storage shows the map of the applied entries on
top of what it held at the start, and each committed write is found until a later
one hides it. -/
theorem applied_stored {history : List (Systems.Transition ClusterNode Round (Option Response))}
    (started : Started first) (run : (lifetime first).Run history node)
    (unfailing : Meets Unfailing history) :
    Shows first node ∧ Visible node ∧
      node.raft.state.commitIndex = node.raft.state.lastApplied := by
  have kept : Shows first node ∧ node.raft.Ready := by
    refine run.invariant (fun _ state => Shows first state ∧ state.raft.Ready) ?_ ?_ unfailing
    · rintro state rfl
      rcases started.ready with ⟨ready, nothing⟩
      refine ⟨?_, ready⟩
      unfold Shows
      rw [nothing]
      rfl
    · rintro _ state round answer next _ ⟨shows_, ready⟩ condition stepped
      exact shows_.undergo ready condition stepped
  exact ⟨kept.1, kept.1.visible kept.2, kept.2.commit⟩

end Lifetime

/-- The only node of a cluster, on an empty directory. -/
def alone : ClusterNode := ((Configuration.initial [1]).servers 1).node

theorem started_alone : Started alone :=
  ⟨1, [1], .new, ByteArray.empty, [], Or.inl (new_initial [1] 1)⟩

/-- The node elects itself and takes a write of a client. -/
def firstWrite (outcome : Option Fault) : List Round :=
  List.replicate 60 ⟨.tick, []⟩ ++ [⟨.client (.set "k" "v"), [outcome]⟩]

theorem applied_stored_alone :
    Exists fun history => Exists fun node => (lifetime alone).Run history node ∧
      Meets Unfailing history ∧ node.raft.state.lastApplied = 1 ∧ Shows alone node ∧
      node.storage.get "k" = some "v" := by
  have checked : ((lifetime alone).execute (firstWrite none) alone).any (fun result =>
      decide (Meets Unfailing result.1 ∧ result.2.raft.state.lastApplied = 1 ∧
        result.2.storage.get "k" = some "v")) = true := by
    decide +kernel
  rcases System.exists_run rfl checked with ⟨history, node, run, holds⟩
  rcases of_decide_eq_true holds with ⟨meets, applied, found⟩
  exact ⟨history, node, run, meets, applied, (applied_stored started_alone run meets).1, found⟩

/-- The append fails in the flush.  The error is only reported: the write counts as
applied and committed, so that the client is told OK, and it is not there. -/
theorem applied_lost :
    Exists fun history => Exists fun node => (lifetime alone).Run history node ∧
      node.pendingCommitIndex = some 1 ∧ node.raft.state.commitIndex = 1 ∧
      node.storage.get "k" = none ∧ ¬ Shows alone node ∧ ¬ Visible node := by
  have checked : ((lifetime alone).execute (firstWrite (some (.flush 0))) alone).any
      (fun result => decide (result.2.pendingCommitIndex = some 1 ∧
        result.2.raft.state.lastApplied = 1 ∧ result.2.raft.state.commitIndex = 1 ∧
        result.2.raft.state.log.body = [⟨1, .put "k" "v"⟩] ∧
        result.2.storage.get "k" = none)) = true := by
    decide +kernel
  rcases System.exists_run rfl checked with ⟨history, node, run, holds⟩
  rcases of_decide_eq_true holds with ⟨pending, applied, commit, log, missing⟩
  refine ⟨history, node, run, pending, commit, missing, ?_, ?_⟩
  · intro shows_
    unfold Shows at shows_
    rw [log, applied] at shows_
    rw [shows_] at missing
    cases missing
  · intro visible
    have found : node.raft.state.log.get (0 + 1) = some ⟨1, .put "k" "v"⟩ := by
      rw [RaftLog.get_succ, log]
      rfl
    have there := visible 0 ⟨1, .put "k" "v"⟩ "k" (some "v") found (by rw [commit]; decide) rfl
      (fun later _ behind below => by rw [commit] at below; omega)
    rw [missing] at there
    cases there

end Service
end RaftStore
