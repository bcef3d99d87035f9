import RaftStore.Cluster.Commit
import RaftStore.Raft.Effects
import RaftStore.Service.Run

namespace RaftStore
namespace Service

open Raft Storage Systems Cluster

/-!
# What a step of a server can do

Each step leaves the Raft node alone or is one call on it, whose actions are
processed before the section under the lock ends, or up to a crash.
-/

/-! ## Processing actions -/

/-- The message an action queues, if it is a send. -/
def messageOf : Action -> Option PeerMessage
  | .sendRequestVote recipient request => some ⟨recipient, .requestVote request⟩
  | .sendRequestVoteResponse recipient response => some ⟨recipient, .requestVoteResponse response⟩
  | .sendAppendEntries recipient request => some ⟨recipient, .appendEntries request⟩
  | .sendAppendEntriesResponse recipient response =>
      some ⟨recipient, .appendEntriesResponse response⟩
  | .applyEntry _ _ => none

namespace ClusterNode

/-- The node after a call on its Raft node. -/
def perform (node : ClusterNode) (raft : RaftNode) (actions : List Action) : ClusterNode :=
  { node with
    raft := raft
    storage := (commandsOf actions).foldl applyCommand node.storage
    outboundMessages := node.outboundMessages ++ actions.filterMap messageOf }

theorem processActions_eq (node : ClusterNode) (actions : List Action) :
    node.processActions actions = node.perform node.raft actions := by
  induction actions generalizing node with
  | nil => simp [processActions, perform, commandsOf]
  | cons action rest inductionHypothesis =>
      change (node.processAction action).processActions rest = _
      rw [inductionHypothesis]
      cases action <;>
        simp [perform, processAction, enqueue, commandsOf, commandOf, messageOf,
          List.filterMap_cons]

theorem tick_eq_ok {node after : ClusterNode} (ticked : node.tick = .ok after) :
    Exists fun raft => Exists fun actions => node.raft.tick = .ok (raft, actions) ∧
      after = node.perform raft actions := by
  rcases Outcome.bind_eq_ok.mp ticked with ⟨⟨raft, actions⟩, called, returned⟩
  cases returned
  exact ⟨raft, actions, called, processActions_eq _ _⟩

theorem dispatchMessage_eq_ok {node after : ClusterNode} {message : NetworkMessage}
    (dispatched : node.dispatchMessage message = .ok after) :
    Exists fun raft => Exists fun actions => dispatch node.raft message = .ok (raft, actions) ∧
      after = node.perform raft actions := by
  rcases Outcome.bind_eq_ok.mp dispatched with ⟨⟨raft, actions⟩, called, returned⟩
  cases returned
  exact ⟨raft, actions, called, processActions_eq _ _⟩

end ClusterNode

/-! ## Client commands -/

/-- What a command writes, and how the write is answered. -/
def Command.written : Command -> Option (LogCommand × Response)
  | .set key value => some (.put key value, .simpleString "OK")
  | .del key => some (.delete key, .integer 1)
  | _ => none

namespace ClusterNode

/-- A leader proposes what it is asked to write. -/
theorem write_of_leader {node after : ClusterNode} {command : LogCommand} {ok response : Response}
    (leads : node.raft.state.role = .leader)
    (written : node.write command ok = .ok (after, response)) :
    Exists fun raft => Exists fun actions =>
      node.raft.propose command = .ok (raft, some actions) ∧ response = ok ∧
      after = { node.perform raft actions with
        pendingCommitIndex := some raft.state.log.lastIndex } := by
  unfold write at written
  rw [if_neg (not_not.mpr leads)] at written
  rcases Outcome.bind_eq_ok.mp written with ⟨⟨raft, proposed⟩, called, returned⟩
  cases proposed with
  | none =>
      rcases RaftNode.propose_cases called with ⟨follows, _, _⟩ | ⟨_, _, _, impossible⟩
      · exact absurd leads follows
      · cases impossible
  | some actions =>
      simp only [processActions_eq] at returned
      cases returned
      exact ⟨raft, actions, called, rfl, rfl⟩

theorem write_eq_ok {node after : ClusterNode} {command : LogCommand} {ok response : Response}
    (written : node.write command ok = .ok (after, response)) :
    after = node ∨ Exists fun raft => Exists fun actions =>
      node.raft.propose command = .ok (raft, some actions) ∧ response = ok ∧
      after = { node.perform raft actions with
        pendingCommitIndex := some raft.state.log.lastIndex } := by
  by_cases leads : node.raft.state.role = .leader
  · exact Or.inr (write_of_leader leads written)
  · unfold write at written
    rw [if_pos leads] at written
    cases written
    exact Or.inl rfl

/-- A command that is not a write, or a write that is refused, only clears the
pending index. -/
theorem handleClientCommand_eq_ok {node after : ClusterNode} {command : Command}
    {response : Response} (handled : node.handleClientCommand command = .ok (after, response)) :
    after = { node with pendingCommitIndex := none } ∨
    Exists fun logged => command.written = some (logged, response) ∧
      Exists fun raft => Exists fun actions =>
        node.raft.propose logged = .ok (raft, some actions) ∧
        after = { node.perform raft actions with
          pendingCommitIndex := some raft.state.log.lastIndex } := by
  cases command with
  | get key =>
      simp only [handleClientCommand] at handled
      split at handled
      · cases handled
        exact Or.inl rfl
      · split at handled <;> cases handled <;> exact Or.inl rfl
  | set key value =>
      simp only [handleClientCommand] at handled
      split at handled
      · cases handled
        exact Or.inl rfl
      · rcases write_eq_ok handled with refused | ⟨raft, actions, called, rfl, equal⟩
        · exact Or.inl refused
        · exact Or.inr ⟨_, rfl, raft, actions, called, equal⟩
  | del key =>
      simp only [handleClientCommand] at handled
      split at handled
      · cases handled
        exact Or.inl rfl
      · rcases write_eq_ok handled with refused | ⟨raft, actions, called, rfl, equal⟩
        · exact Or.inl refused
        · exact Or.inr ⟨_, rfl, raft, actions, called, equal⟩
  | ping =>
      cases handled
      exact Or.inl rfl
  | unknown name =>
      cases handled
      exact Or.inl rfl

end ClusterNode

/-- A client is answered at once, or its write was appended and it has to wait. -/
theorem Server.ask_eq_ok {server after : Server} {command : Command} {answer : Option Response}
    (asked : server.ask command = .ok (after, answer)) :
    (after = ⟨{ server.node with pendingCommitIndex := none }, none⟩ ∧ answer.isSome) ∨
    (answer = none ∧ Exists fun logged => Exists fun ok => command.written = some (logged, ok) ∧
      Exists fun raft => Exists fun actions =>
        server.node.raft.propose logged = .ok (raft, some actions) ∧
        after = ⟨{ server.node.perform raft actions with
          pendingCommitIndex := some raft.state.log.lastIndex },
          some ⟨raft.state.log.lastIndex, ok⟩⟩) := by
  rcases Outcome.bind_eq_ok.mp asked with ⟨⟨node, response⟩, handled, returned⟩
  rcases ClusterNode.handleClientCommand_eq_ok handled with
    rfl | ⟨logged, written, raft, actions, called, rfl⟩
  · cases returned
    exact Or.inl ⟨rfl, rfl⟩
  · cases returned
    exact Or.inr ⟨rfl, logged, response, written, raft, actions, called, rfl⟩

/-! ## Crashes -/

section Crashes

variable {peers : List Nat} {server after : Server}

theorem Server.reopen_eq_ok {id : Nat} (opened : server.reopen peers id = .ok after) :
    Exists fun node => ClusterNode.new id peers (server.node.raft.persister.getD .new)
      server.node.storage.wal.file [] = .ok node ∧ after = ⟨node, none⟩ := by
  unfold Server.reopen at opened
  cases started : ClusterNode.new id peers (server.node.raft.persister.getD .new)
      server.node.storage.wal.file [] with
  | error error =>
      simp only [started] at opened
      cases opened
  | ok node =>
      simp only [started] at opened
      cases opened
      exact ⟨node, rfl, rfl⟩

theorem Server.cut_eq_some {event : Event} {last : Nat}
    (crashed : server.cut peers event last = some after) :
    Exists fun call => Exists fun raft => Exists fun actions => Exists fun node =>
      server.call event = some call ∧ call.run server.node.raft = .ok (raft, actions) ∧
      last ≤ raft.state.lastApplied ∧
      ClusterNode.new event.actor peers (raft.persister.getD .new)
        (server.node.perform raft (actions.takeWhile (upTo last))).storage.wal.file [] = .ok node ∧
      after = ⟨node, none⟩ := by
  rcases Option.bind_eq_some_iff.mp crashed with ⟨call, asked, rest⟩
  rcases Option.bind_eq_some_iff.mp rest with ⟨⟨raft, actions⟩, called, opened⟩
  simp only [ClusterNode.processActions_eq] at opened
  split at opened
  · next inside =>
      rcases Server.reopen_eq_ok (toOption_eq_some.mp opened) with ⟨node, started, rfl⟩
      exact ⟨call, raft, actions, node, asked, toOption_eq_some.mp called, inside, started, rfl⟩
  · cases opened

end Crashes

/-- What a node is asked to propose is what the command writes, and the command does no
more than this write. -/
theorem ClusterNode.written_of_proposal {node : ClusterNode} {command : Command}
    {logged : LogCommand} (asked : node.proposal command = some logged) :
    Exists fun ok => command.written = some (logged, ok) ∧ node.handleClientCommand command =
      { node with pendingCommitIndex := none }.write logged ok := by
  have here : forall key, ({ node with pendingCommitIndex := none } : ClusterNode).moved key =
      node.moved key := fun _ => rfl
  cases command with
  | set key value =>
      simp only [proposal] at asked
      split at asked
      · cases asked
      · next own =>
          cases asked
          refine ⟨_, rfl, ?_⟩
          simp only [handleClientCommand, here, Option.not_isSome_iff_eq_none.mp own]
  | del key =>
      simp only [proposal] at asked
      split at asked
      · cases asked
      · next own =>
          cases asked
          refine ⟨_, rfl, ?_⟩
          simp only [handleClientCommand, here, Option.not_isSome_iff_eq_none.mp own]
  | get key => cases asked
  | ping => cases asked
  | unknown name => cases asked

/-! ## Steps -/

/-- What a server does at an event: a tick or a received message is a call on its
Raft node, a command is answered or written, a poll goes on waiting, answers the
write or gives up, and a restart reads the files, as does a crash in the middle of
the others. -/
inductive Server.Does (peers : List Nat) (server : Server) :
    Event -> Server -> Option Response -> Prop
  | ticks {id : Nat} {raft : RaftNode} {actions : List Action}
      (called : server.node.raft.tick = .ok (raft, actions)) :
      Does peers server (.tick id) { server with node := server.node.perform raft actions } none
  | receives {packet : Packet} {raft : RaftNode} {actions : List Action}
      (called : dispatch server.node.raft packet.message = .ok (raft, actions)) :
      Does peers server (.deliver packet)
        { server with node := server.node.perform raft actions } none
  | answers {id : Nat} {command : Command} {response : Response} (free : server.session = none) :
      Does peers server (.client id command)
        ⟨{ server.node with pendingCommitIndex := none }, none⟩ (some response)
  | writes {id : Nat} {command : Command} {logged : LogCommand} {ok : Response} {raft : RaftNode}
      {actions : List Action} (free : server.session = none)
      (written : command.written = some (logged, ok))
      (called : server.node.raft.propose logged = .ok (raft, some actions)) :
      Does peers server (.client id command)
        ⟨{ server.node.perform raft actions with
          pendingCommitIndex := some raft.state.log.lastIndex },
          some ⟨raft.state.log.lastIndex, ok⟩⟩ none
  | waits {id : Nat} {late : Bool} : Does peers server (.poll id late) server none
  | acknowledges {id : Nat} {late : Bool} {waiting : Waiting}
      (session : server.session = some waiting)
      (reached : waiting.index ≤ server.node.raft.state.commitIndex) :
      Does peers server (.poll id late) { server with session := none } (some waiting.ok)
  | expires {id : Nat} {late : Bool} :
      Does peers server (.poll id late) { server with session := none } (some timeout)
  | restarts {id : Nat} {node : ClusterNode}
      (reopened : ClusterNode.new id peers (server.node.raft.persister.getD .new)
        server.node.storage.wal.file [] = .ok node) :
      Does peers server (.restart id) ⟨node, none⟩ none
  | crashes {event : Event} {last : Nat} {call : Call} {raft : RaftNode} {actions : List Action}
      {node : ClusterNode} (asked : server.call event = some call)
      (called : call.run server.node.raft = .ok (raft, actions))
      (inside : last ≤ raft.state.lastApplied)
      (reopened : ClusterNode.new event.actor peers (raft.persister.getD .new)
        (server.node.perform raft (actions.takeWhile (upTo last))).storage.wal.file [] = .ok node) :
      Does peers server (.crash event last) ⟨node, none⟩ none

section Steps

variable {peers : List Nat} {server after : Server} {event : Event} {answer : Option Response}

theorem Server.does_of_respond (responded : server.respond peers event = some (after, answer)) :
    server.Does peers event after answer := by
  cases event with
  | tick id =>
      rcases Option.map_eq_some_iff.mp responded with ⟨node, returned, equal⟩
      cases equal
      rcases ClusterNode.tick_eq_ok (toOption_eq_some.mp returned) with ⟨raft, actions, called, rfl⟩
      exact .ticks called
  | deliver packet =>
      rcases Option.map_eq_some_iff.mp responded with ⟨node, returned, equal⟩
      cases equal
      rcases ClusterNode.dispatchMessage_eq_ok (toOption_eq_some.mp returned) with
        ⟨raft, actions, called, rfl⟩
      exact .receives called
  | client id command =>
      simp only [Server.respond] at responded
      cases free : server.session with
      | some waiting =>
          rw [free] at responded
          cases responded
      | none =>
          rw [free] at responded
          rcases Server.ask_eq_ok (toOption_eq_some.mp responded) with
            ⟨rfl, answered⟩ | ⟨rfl, logged, ok, written, raft, actions, called, rfl⟩
          · rcases Option.isSome_iff_exists.mp answered with ⟨response, rfl⟩
            exact .answers free
          · exact .writes free written called
  | poll id late =>
      rcases Option.map_eq_some_iff.mp responded with ⟨waiting, session, equal⟩
      unfold Server.awaitCommit at equal
      split at equal
      · next reached =>
          cases equal
          exact .acknowledges session reached
      · split at equal
        · cases equal
          exact .expires
        · cases equal
          exact .waits
  | restart id =>
      rcases Option.map_eq_some_iff.mp responded with ⟨opened, returned, equal⟩
      cases equal
      rcases Server.reopen_eq_ok (toOption_eq_some.mp returned) with ⟨node, started, rfl⟩
      exact .restarts started
  | crash event last =>
      rcases Option.map_eq_some_iff.mp responded with ⟨opened, crashed, equal⟩
      cases equal
      rcases Server.cut_eq_some crashed with ⟨call, raft, actions, node, asked, called, inside,
        started, rfl⟩
      exact .crashes asked called inside started

theorem Server.respond_tick {id : Nat} {raft : RaftNode} {actions : List Action}
    (called : server.node.raft.tick = .ok (raft, actions)) : server.respond peers (.tick id) =
      some ({ server with node := server.node.perform raft actions }, none) := by
  have ticked : server.node.tick = .ok (server.node.perform raft actions) :=
    Outcome.bind_eq_ok.mpr ⟨_, called, congrArg Except.ok (ClusterNode.processActions_eq _ _)⟩
  exact Option.map_eq_some_iff.mpr ⟨_, toOption_eq_some.mpr ticked, rfl⟩

theorem Server.respond_deliver {packet : Packet} {raft : RaftNode} {actions : List Action}
    (called : dispatch server.node.raft packet.message = .ok (raft, actions)) :
    server.respond peers (.deliver packet) =
      some ({ server with node := server.node.perform raft actions }, none) := by
  have dispatched : server.node.dispatchMessage packet.message =
      .ok (server.node.perform raft actions) :=
    Outcome.bind_eq_ok.mpr ⟨_, called, congrArg Except.ok (ClusterNode.processActions_eq _ _)⟩
  exact Option.map_eq_some_iff.mpr ⟨_, toOption_eq_some.mpr dispatched, rfl⟩

theorem Configuration.install_servers_self (peers : List Nat) (config : Configuration) (id : Nat)
    (server : Server) : (config.install peers id server).servers id =
      { server with node := { server.node with outboundMessages := [] } } := by
  simp [install, ClusterNode.takeOutboundMessages]

theorem Configuration.install_servers_of_ne (peers : List Nat) (config : Configuration)
    {id other : Nat} (server : Server) (different : other ≠ id) :
    (config.install peers id server).servers other = config.servers other := by
  simp [install, different]

end Steps
end Service
end RaftStore
