import RaftStore.Service.Application

namespace RaftStore
namespace Service

open Raft Storage Systems Cluster Collections

/-!
# A cluster of one node

A node whose only peer is itself is its own majority.  What it proposes as leader
is committed, applied and stored before the command returns, so that its clients
cannot tell it from a map.

The map is a system of its own.  A run of the node is a run of the map when all
rounds are left out but the commands that the node took as leader.
-/

/-! ## A map -/

/-- What a command makes of a map. -/
def Command.update (map : String -> Option String) : Command -> String -> Option String
  | .set key value => Function.update map key (some value)
  | .del key => Function.update map key none
  | _ => map

/-- What a command returns when it is executed on a map. -/
def Command.answer (map : String -> Option String) : Command -> Response
  | .get key => ((map key).map Response.bulkString).getD .null
  | .set _ _ => .simpleString "OK"
  | .del _ => .integer 1
  | .ping => .simpleString "PONG"
  | .unknown name => .error ("unknown command '" ++ name ++ "'")

/-- A map that executes commands, one after the other. -/
def dictionary : System (String -> Option String) Command Response where
  Starts map := map = fun _ => none
  step map command := some (command.update map, command.answer map)

/-- The value of the last set of a key that no delete of it follows.  The newest
command comes first. -/
def lastSet (key : String) : List Command -> Option String
  | [] => none
  | .set other value :: older => if other = key then some value else lastSet key older
  | .del other :: older => if other = key then none else lastSet key older
  | _ :: older => lastSet key older

/-- A map holds the last values that were set. -/
theorem dictionary_holds
    {history : List (Systems.Transition (String -> Option String) Command Response)}
    {map : String -> Option String} (run : dictionary.Run history map) (key : String) :
    map key = lastSet key (history.map Systems.Transition.event) := by
  induction run with
  | start begins =>
      rw [begins]
      rfl
  | @next _ map _ command _ _ stepped inductionHypothesis =>
      cases stepped
      rw [List.map_cons]
      cases command with
      | set other value =>
          rw [lastSet, ← inductionHypothesis, Command.update, Function.update_apply]
          simp only [eq_comm]
      | del other =>
          rw [lastSet, ← inductionHypothesis, Command.update, Function.update_apply]
          simp only [eq_comm]
      | get other => exact inductionHypothesis
      | ping => exact inductionHypothesis
      | unknown name => exact inductionHypothesis

/-! ## Commands at the leader -/

/-- The command of a round that the node took as leader, as a step of the map that
the node shows. -/
def served (transition : Systems.Transition ClusterNode Round (Option Response)) :
    Option (Systems.Transition (String -> Option String) Command Response) :=
  match transition.event.input, transition.output with
  | .client command, some response =>
      if transition.source.raft.state.role = .leader then
        some ⟨transition.source.storage.get, command, response, transition.target.storage.get⟩
      else none
  | _, _ => none

theorem served_eq_some {transition : Systems.Transition ClusterNode Round (Option Response)}
    {step : Systems.Transition (String -> Option String) Command Response}
    (serves : served transition = some step) :
    Exists fun command => Exists fun response => transition.event.input = .client command ∧
      transition.output = some response ∧ transition.source.raft.state.role = .leader ∧
      step = ⟨transition.source.storage.get, command, response, transition.target.storage.get⟩ := by
  unfold served at serves
  split at serves
  · next command response asked answered =>
      split at serves
      · next leads =>
          cases serves
          exact ⟨command, response, asked, answered, leads, rfl⟩
      · cases serves
  · cases serves

/-- The input is no message of a peer. -/
def Input.Silent : Input -> Prop
  | .receive _ => False
  | _ => True

instance (input : Input) : Decidable input.Silent :=
  match input with
  | .receive _ => inferInstanceAs (Decidable False)
  | .tick => inferInstanceAs (Decidable True)
  | .client _ => inferInstanceAs (Decidable True)
  | .drain => inferInstanceAs (Decidable True)

/-- No append fails in the round, and no peer takes part in it. -/
def Quiet (_ : ClusterNode) (round : Round) : Prop :=
  (forall fault, fault ∈ round.faults -> fault = none) ∧ round.input.Silent

instance (node : ClusterNode) (round : Round) : Decidable (Quiet node round) :=
  inferInstanceAs (Decidable (_ ∧ _))

/-- A write that the node took as leader is committed and applied at once, and the
index it would have to wait for is the commit index. -/
def Immediate (transition : Systems.Transition ClusterNode Round (Option Response)) : Prop :=
  forall command, transition.event.input = .client command ->
    transition.source.raft.state.role = .leader -> command.written.isSome ->
    transition.target.pendingCommitIndex = some transition.target.raft.state.commitIndex ∧
      transition.target.raft.state.lastApplied = transition.target.raft.state.commitIndex

/-! ## The Raft node -/

/-- A Raft node that is its only peer has committed and applied all it has, which is
nothing before it leads. -/
structure Only (id : Nat) (raft : RaftNode) : Prop where
  peers : raft.state.peers = [id]
  ready : raft.Ready
  whole : raft.state.commitIndex = raft.state.log.lastIndex
  idle : raft.state.role ≠ .leader -> raft.state.log.body = []

section Raft

variable {id : Nat} {raft after : RaftNode} {actions : List Action}

theorem Only.take_body (only : Only id raft) :
    raft.state.log.body.take raft.state.lastApplied = raft.state.log.body := by
  apply List.take_of_length_le
  rw [← only.ready.commit, only.whole, RaftLog.lastIndex_eq_length_body]

/-- A change of the timers and of the role, to that of a leader if at all. -/
theorem Only.congr (only : Only id raft) (peers : after.state.peers = raft.state.peers)
    (log : after.state.log = raft.state.log) (commit : after.state.commitIndex = raft.state.commitIndex)
    (applied : after.state.lastApplied = raft.state.lastApplied)
    (role : after.state.role ≠ .leader -> raft.state.role ≠ .leader) : Only id after where
  peers := peers.trans only.peers
  ready := ⟨by rw [applied, log]; exact only.ready.inside,
    by rw [applied, commit]; exact only.ready.commit⟩
  whole := by rw [commit, log]; exact only.whole
  idle := fun follows => by rw [log]; exact only.idle (role follows)

/-- A tick elects the node or changes a timer. -/
theorem Only.tick (only : Only id raft) (ticked : raft.tick = .ok (after, actions)) :
    Only id after ∧ after.state.log = raft.state.log ∧
      (raft.state.role = .leader -> after.state.role = .leader) := by
  have log := RaftNode.tick_log ticked
  rcases RaftNode.tick_cases ticked with ⟨_, rfl, _⟩ | ⟨_, _, rfl, _⟩ | ⟨follows, _, started⟩
  · exact ⟨only.congr rfl rfl rfl rfl fun follows => follows, log, fun leads => leads⟩
  · exact ⟨only.congr rfl rfl rfl rfl fun follows => follows, log, fun leads => leads⟩
  · rcases RaftNode.startElection_eq_ok.mp started with ⟨_, result⟩
    split at result <;> cases result <;>
      exact ⟨only.congr rfl rfl rfl rfl (fun _ => follows), log, fun leads => absurd leads follows⟩

theorem Only.body_withEntry (only : Only id raft) (command : LogCommand) :
    (raft.withEntry command).state.log.body =
      raft.state.log.body ++ [⟨raft.state.currentTerm, command⟩] := by
  apply List.tail_append_of_ne_nil
  exact List.length_pos_iff.mp (Nat.zero_lt_of_lt only.ready.inside)

theorem Only.lastIndex_withEntry (only : Only id raft) (command : LogCommand) :
    (raft.withEntry command).state.log.lastIndex = raft.state.log.lastIndex + 1 := by
  rw [RaftLog.lastIndex_eq_length_body, RaftLog.lastIndex_eq_length_body,
    only.body_withEntry command, List.length_append, List.length_singleton]

/-- The node alone is a majority, so that the commit scan reaches a new entry. -/
theorem Only.scannedCommit (only : Only id raft) (command : LogCommand) :
    (raft.withEntry command).scannedCommit = raft.state.log.lastIndex + 1 := by
  have commit : (raft.withEntry command).state.commitIndex = raft.state.log.lastIndex := only.whole
  have term : (raft.withEntry command).state.log.termAt (raft.state.log.lastIndex + 1) =
      (raft.withEntry command).state.currentTerm := by
    rw [RaftLog.termAt_succ, only.body_withEntry command, RaftLog.lastIndex_eq_length_body,
      List.getElem?_concat_length]
    rfl
  have majority : (raft.withEntry command).state.majorityCount = 1 := by
    change raft.state.peers.length / 2 + 1 = 1
    rw [only.peers, List.length_singleton]
  unfold RaftNode.scannedCommit
  rw [commit, only.lastIndex_withEntry command, Nat.add_sub_cancel_left]
  change RaftNode.commitScan _ _ _ = _
  unfold RaftNode.commitScan RaftNode.replicationCount
  rw [if_neg (not_not.mpr term), majority, if_pos (Nat.le_add_right 1 _)]

/-- What the node proposes as leader is committed and applied at once. -/
theorem Only.propose (only : Only id raft) {command : LogCommand}
    (proposed : raft.propose command = .ok (after, some actions)) :
    Only id after ∧ raft.state.role = .leader ∧ after.state.role = .leader ∧
      after.state.log.body = raft.state.log.body ++ [⟨raft.state.currentTerm, command⟩] := by
  have progress := only.ready.propose proposed
  have scanned := only.scannedCommit command
  have commit : (raft.withEntry command).state.commitIndex = raft.state.log.lastIndex := only.whole
  rcases RaftNode.propose_cases proposed with ⟨_, _, impossible⟩ | ⟨leads, _, rfl, _⟩
  · cases impossible
  · rw [RaftNode.maybeAdvanceCommitIndex_eq, if_pos (by omega), scanned] at progress ⊢
    exact ⟨⟨only.peers, progress.ready, (only.lastIndex_withEntry command).symm,
      fun follows => absurd leads follows⟩, leads, leads, only.body_withEntry command⟩

end Raft

/-! ## The cluster node -/

/-- A cluster node whose Raft node is alone, which has no router, and whose storage
shows its log. -/
structure Single (id : Nat) (first node : ClusterNode) : Prop where
  only : Only id node.raft
  router : node.router = none
  shows_ : Shows first node

section Rounds

variable {id : Nat} {first node after : ClusterNode} {round : Round} {answer : Option Response}

theorem Single.get_eq (single : Single id first node) (fresh : first.storage.get = fun _ => none) :
    node.storage.get = contents node.raft.state.log.body := by
  rw [single.shows_, single.only.take_body, fresh]
  rfl

theorem Quiet.unfailing (quiet : Quiet node round) : Unfailing node round := by
  refine ⟨quiet.1, ?_⟩
  rcases round with ⟨input, faults⟩
  cases input with
  | receive message => exact quiet.2.elim
  | tick => trivial
  | client command => trivial
  | drain => trivial

/-- What a round does to the Raft node and the router.  The log grows by what a
leader is asked to write. -/
structure Passage (id : Nat) (raft : RaftNode) (after : ClusterNode) (written : List LogCommand) :
    Prop where
  only : Only id after.raft
  router : after.router = none
  role : raft.state.role = .leader -> after.raft.state.role = .leader
  body : after.raft.state.log.body =
    raft.state.log.body ++ written.map (LogEntry.mk raft.state.currentTerm)

/-- Without a router no key is on another shard. -/
theorem ClusterNode.moved_of_alone (alone : node.router = none) (key : String) :
    ({ node with pendingCommitIndex := none } : ClusterNode).moved key = none := by
  unfold moved
  simp only [alone]

/-- A command that does not write. -/
theorem ClusterNode.handleClientCommand_reads {command : Command} {response : Response}
    (alone : node.router = none) (reads : command.written = none)
    (handled : node.handleClientCommand command = .ok (after, response)) :
    after = { node with pendingCommitIndex := none } ∧
      response = command.answer node.storage.get := by
  have here := moved_of_alone alone
  cases command with
  | get key =>
      simp only [handleClientCommand, here] at handled
      simp only [Command.answer]
      cases found : node.storage.get key with
      | none =>
          rw [found] at handled
          cases handled
          exact ⟨rfl, rfl⟩
      | some value =>
          rw [found] at handled
          cases handled
          exact ⟨rfl, rfl⟩
  | set key value => cases reads
  | del key => cases reads
  | ping =>
      cases handled
      exact ⟨rfl, rfl⟩
  | unknown name =>
      cases handled
      exact ⟨rfl, rfl⟩

/-- A command that writes, at a leader. -/
theorem ClusterNode.handleClientCommand_writes {command : Command} {logged : LogCommand}
    {ok response : Response} (alone : node.router = none)
    (writes : command.written = some (logged, ok)) (leads : node.raft.state.role = .leader)
    (handled : node.handleClientCommand command = .ok (after, response)) :
    Exists fun raft => Exists fun actions => node.raft.propose logged = .ok (raft, some actions) ∧
      response = ok ∧ after = { node.perform raft actions with
        pendingCommitIndex := some raft.state.log.lastIndex } := by
  have here := moved_of_alone alone
  have cleared : ({ node with pendingCommitIndex := none } : ClusterNode).raft.state.role = .leader :=
    leads
  cases command with
  | set key value =>
      cases writes
      simp only [handleClientCommand, here] at handled
      have proposed := write_of_leader cleared handled
      exact proposed
  | del key =>
      cases writes
      simp only [handleClientCommand, here] at handled
      have proposed := write_of_leader cleared handled
      exact proposed
  | get key => cases writes
  | ping => cases writes
  | unknown name => cases writes

theorem Single.unmoved (single : Single id first node) (raft : after.raft = node.raft)
    (router : after.router = node.router) : Passage id node.raft after [] where
  only := by rw [raft]; exact single.only
  router := router.trans single.router
  role := by rw [raft]; exact fun leads => leads
  body := by rw [raft]; exact (List.append_nil _).symm

/-- A round without a command leaves the log alone. -/
theorem Single.passage_idle (single : Single id first node) {input : Input}
    (silent : input.Silent) (unasked : forall command, input ≠ .client command)
    (handled : node.handle input = .ok (after, answer)) : Passage id node.raft after [] := by
  cases input with
  | tick =>
      rcases Outcome.map_eq_ok.mp handled with ⟨ticked, ok, equal⟩
      cases equal
      rcases ClusterNode.tick_eq_ok ok with ⟨raft, actions, called, rfl⟩
      rcases single.only.tick called with ⟨only, log, role⟩
      exact ⟨only, single.router, role, (congrArg RaftLog.body log).trans (List.append_nil _).symm⟩
  | client command => exact absurd rfl (unasked command)
  | receive message => exact silent.elim
  | drain =>
      cases handled
      exact single.unmoved rfl rfl

/-- At a node that does not lead, commands leave the log alone. -/
theorem Single.passage_refused (single : Single id first node) {command : Command}
    {response : Response} (follows : node.raft.state.role ≠ .leader)
    (handled : node.handleClientCommand command = .ok (after, response)) :
    Passage id node.raft after [] := by
  rcases ClusterNode.handleClientCommand_eq_ok handled with
    rfl | ⟨logged, _, raft, actions, called, _⟩
  · exact single.unmoved rfl rfl
  · exact absurd (single.only.propose called).2.1 follows

/-- A leader executes a command: it answers like the map, and the log grows by what
the command writes. -/
theorem Single.passage_served (single : Single id first node) {command : Command}
    {response : Response} (leads : node.raft.state.role = .leader)
    (handled : node.handleClientCommand command = .ok (after, response)) :
    response = command.answer node.storage.get ∧
    Passage id node.raft after (command.written.map Prod.fst).toList ∧
    (command.written.isSome -> after.pendingCommitIndex = some after.raft.state.log.lastIndex) := by
  cases writes : command.written with
  | none =>
      rcases ClusterNode.handleClientCommand_reads single.router writes handled with ⟨rfl, answered⟩
      exact ⟨answered, single.unmoved rfl rfl, fun impossible => nomatch impossible⟩
  | some written =>
      rcases written with ⟨logged, ok⟩
      rcases ClusterNode.handleClientCommand_writes single.router writes leads handled with
        ⟨raft, actions, called, rfl, rfl⟩
      rcases single.only.propose called with ⟨only, _, role, body⟩
      refine ⟨?_, ⟨only, single.router, fun _ => role, body⟩, fun _ => rfl⟩
      cases command <;> cases writes <;> rfl

/-- What a round of quiet leaves: the same map, or the one that a command at the
leader makes of it. -/
structure Follows (id : Nat) (first node after : ClusterNode) (round : Round)
    (answer : Option Response) : Prop where
  single : Single id first after
  role : node.raft.state.role = .leader -> after.raft.state.role = .leader
  same : served ⟨node, round, answer, after⟩ = none -> after.storage.get = node.storage.get
  executes : forall command, round.input = .client command -> node.raft.state.role = .leader ->
    answer = some (command.answer node.storage.get) ∧
    after.storage.get = command.update node.storage.get
  immediate : Immediate ⟨node, round, answer, after⟩

theorem contents_append_singleton (body : List LogEntry) (entry : LogEntry) :
    contents (body ++ [entry]) = overwrite (contents body) (writesOf [entry]) := by
  unfold contents
  rw [writesOf_append, overwrite_append]

/-- What a command writes is what it does to the map. -/
theorem Command.contents_written (command : Command) (body : List LogEntry) (term : Nat) :
    contents (body ++ (command.written.map Prod.fst).toList.map (LogEntry.mk term)) =
      command.update (contents body) := by
  cases command with
  | set key value => exact contents_append_singleton body _
  | del key => exact contents_append_singleton body _
  | get key => exact congrArg contents (List.append_nil body)
  | ping => exact congrArg contents (List.append_nil body)
  | unknown name => exact congrArg contents (List.append_nil body)

/-- A round that is no command at the leader. -/
theorem Passage.follows (passage : Passage id node.raft after []) (single : Single id first node)
    (fresh : first.storage.get = fun _ => none) (shows_ : Shows first after)
    (unserved : forall command, round.input = .client command -> node.raft.state.role ≠ .leader) :
    Follows id first node after round answer := by
  have singleAfter : Single id first after := ⟨passage.only, passage.router, shows_⟩
  refine ⟨singleAfter, passage.role, fun _ => ?_, ?_, ?_⟩
  · rw [singleAfter.get_eq fresh, single.get_eq fresh, passage.body]
    exact congrArg contents (List.append_nil _)
  · exact fun command asked leads => absurd leads (unserved command asked)
  · exact fun command asked leads => absurd leads (unserved command asked)

theorem Single.undergo (single : Single id first node)
    (fresh : first.storage.get = fun _ => none) (quiet : Quiet node round)
    (undergone : node.undergo round = some (after, answer)) :
    Follows id first node after round answer := by
  have handled := undergo_eq_some undergone
  have shows_ := (single.shows_.undergo single.only.ready quiet.unfailing undergone).1
  have onDisk : Single id first (node.onDisk round.faults) :=
    ⟨single.only, single.router, single.shows_⟩
  cases asked : round.input with
  | client command =>
      rw [asked] at handled
      rcases Outcome.map_eq_ok.mp handled with ⟨⟨reached, response⟩, ok, equal⟩
      cases equal
      by_cases leads : node.raft.state.role = .leader
      · rcases onDisk.passage_served leads ok with ⟨rfl, passage, pending⟩
        have singleAfter : Single id first reached := ⟨passage.only, passage.router, shows_⟩
        refine ⟨singleAfter, passage.role, fun unserved => ?_, fun other again _ => ?_,
          fun other again _ writes => ?_⟩
        · simp only [served, asked, if_pos leads] at unserved
          cases unserved
        · cases asked.symm.trans again
          refine ⟨rfl, ?_⟩
          rw [singleAfter.get_eq fresh, passage.body, command.contents_written]
          exact congrArg command.update (single.get_eq fresh).symm
        · cases asked.symm.trans again
          refine ⟨(pending writes).trans ?_, passage.only.ready.commit.symm⟩
          rw [passage.only.whole]
      · have passage : Passage id node.raft reached [] := onDisk.passage_refused leads ok
        exact passage.follows single fresh shows_ fun _ _ => leads
  | receive message =>
      have silent := quiet.2
      rw [asked] at silent
      exact silent.elim
  | tick =>
      rw [asked] at handled
      have passage : Passage id node.raft after [] :=
        onDisk.passage_idle (show Input.tick.Silent from trivial) (fun _ => Input.noConfusion) handled
      exact passage.follows single fresh shows_ fun command client => by
        rw [asked] at client
        cases client
  | drain =>
      rw [asked] at handled
      have passage : Passage id node.raft after [] :=
        onDisk.passage_idle (show Input.drain.Silent from trivial) (fun _ => Input.noConfusion) handled
      exact passage.follows single fresh shows_ fun command client => by
        rw [asked] at client
        cases client

/-- A round is a step of the map or none. -/
theorem Follows.dictionary (follows : Follows id first node after round answer)
    {history : List (Systems.Transition ClusterNode Round (Option Response))}
    (run : dictionary.Run (history.filterMap served) node.storage.get) :
    dictionary.Run ((⟨node, round, answer, after⟩ :: history).filterMap served)
      after.storage.get := by
  cases serves : served ⟨node, round, answer, after⟩ with
  | none =>
      rw [List.filterMap_cons_none serves, follows.same serves]
      exact run
  | some step =>
      rw [List.filterMap_cons_some serves]
      rcases served_eq_some serves with ⟨command, response, asked, answered, leads, rfl⟩
      rcases follows.executes command asked leads with ⟨rfl, updated⟩
      cases answered
      refine run.next ?_
      rw [updated]
      rfl

/-- A leader takes every command while there is room in its log. -/
theorem ClusterNode.handleClientCommand_returns (alone : node.router = none)
    (leads : node.raft.state.role = .leader)
    (room : node.raft.state.log.entries.length + 1 ≤ vecCapacity) (command : Command) :
    Exists fun result => node.handleClientCommand command = .ok result := by
  have here := moved_of_alone alone
  have writes : forall logged ok, Exists fun result =>
      ({ node with pendingCommitIndex := none } : ClusterNode).write logged ok = .ok result := by
    intro logged ok
    unfold write
    rw [if_neg (not_not.mpr leads)]
    refine (Outcome.returns_bind ?_).mpr ((propose_returns logged).mpr fun _ => room)
    rintro ⟨raft, _ | actions⟩
    · exact ⟨_, rfl⟩
    · exact ⟨_, rfl⟩
  cases command with
  | get key =>
      simp only [handleClientCommand, here]
      split <;> exact ⟨_, rfl⟩
  | set key value =>
      simp only [handleClientCommand, here]
      exact writes _ _
  | del key =>
      simp only [handleClientCommand, here]
      exact writes _ _
  | ping => exact ⟨_, rfl⟩
  | unknown name => exact ⟨_, rfl⟩

theorem Single.handle_returns (single : Single id first node)
    (leads : node.raft.state.role = .leader)
    (room : node.raft.state.log.entries.length + 1 ≤ vecCapacity) {input : Input}
    (silent : input.Silent) :
    Exists fun result => node.handle input = .ok result := by
  cases input with
  | tick =>
      refine Outcome.returns_map.mpr ((Outcome.returns_bind fun _ => ⟨_, rfl⟩).mpr (tick_returns.mpr ?_))
      exact fun follows => absurd leads follows
  | client command =>
      exact Outcome.returns_map.mpr (ClusterNode.handleClientCommand_returns single.router leads room command)
  | receive message => exact silent.elim
  | drain => exact ⟨_, rfl⟩

end Rounds

/-! ## Runs -/

section Runs

variable {id : Nat} {first node : ClusterNode} {faults : List (Option Fault)}
  {history : List (Systems.Transition ClusterNode Round (Option Response))}

/-- A node on an empty directory begins with an empty map. -/
theorem single_start (started : ClusterNode.new id [id] .new ByteArray.empty faults = .ok first) :
    Single id first first ∧ first.storage.get = fun _ => none := by
  rcases ClusterNode.new_eq_ok started with ⟨storage, opened, rfl⟩
  have held : (Wal.new ByteArray.empty faults).file = "".toByteArray := rfl
  rw [StorageEngine.new_of_replay (Wal.replay_of_text held)] at opened
  cases opened
  refine ⟨⟨⟨rfl, ⟨Nat.one_pos, rfl⟩, rfl, fun _ => rfl⟩, rfl, rfl⟩, ?_⟩
  exact StorageEngine.get_empty

/-- **A cluster of one node is a map.**  In every run of a node that is its only
peer, from an empty directory, without failing appends and messages of others, the
commands that it takes as leader are a run of the map: each answer is that of the
map, and what the node shows is what was set last.  Every write is committed and
applied at once, a leader stays leader, and it takes every tick and command as long
as there is room in its log. -/
theorem single_node_refines
    (started : ClusterNode.new id [id] .new ByteArray.empty faults = .ok first)
    (run : (lifetime first).Run history node) (quiet : Meets Quiet history) :
    dictionary.Run (history.filterMap served) node.storage.get ∧
    (forall key, node.storage.get key =
      lastSet key ((history.filterMap served).map Systems.Transition.event)) ∧
    (forall transition, transition ∈ history -> Immediate transition ∧
      (transition.source.raft.state.role = .leader ->
        transition.target.raft.state.role = .leader)) ∧
    (node.raft.state.role = .leader -> node.raft.state.log.entries.length + 1 ≤ vecCapacity ->
      forall input : Input, input.Silent -> Exists fun result => node.handle input = .ok result) := by
  rcases single_start started with ⟨single, fresh⟩
  have kept : dictionary.Run (history.filterMap served) node.storage.get ∧
      Single id first node ∧ forall transition, transition ∈ history -> Immediate transition ∧
        (transition.source.raft.state.role = .leader ->
          transition.target.raft.state.role = .leader) := by
    refine run.invariant (fun steps state => dictionary.Run (steps.filterMap served)
      state.storage.get ∧ Single id first state ∧ forall transition, transition ∈ steps ->
        Immediate transition ∧ (transition.source.raft.state.role = .leader ->
          transition.target.raft.state.role = .leader)) ?_ ?_ quiet
    · rintro state rfl
      exact ⟨.start fresh, single, fun _ listed => (List.not_mem_nil listed).elim⟩
    · rintro steps state round answer next _ ⟨map, alone, each⟩ condition stepped
      have follows := alone.undergo fresh condition stepped
      refine ⟨follows.dictionary map, follows.single, fun transition listed => ?_⟩
      rcases List.mem_cons.mp listed with rfl | earlier
      · exact ⟨follows.immediate, follows.role⟩
      · exact each transition earlier
  rcases kept with ⟨map, alone, each⟩
  exact ⟨map, dictionary_holds map, each, fun leads room _ silent =>
    alone.handle_returns leads room silent⟩

end Runs

set_option maxRecDepth 100000 in
/-- The node elects itself, and a client sets, reads, deletes and reads a key. -/
theorem single_node_refines_alone :
    Exists fun history => Exists fun node => (lifetime alone).Run history node ∧
      Meets Quiet history ∧
      (history.filterMap served).map Systems.Transition.event =
        [.get "k", .del "k", .get "k", .set "k" "a|b\n"] ∧
      (history.filterMap served).map Systems.Transition.output =
        [.null, .integer 1, .bulkString "a|b\n", .simpleString "OK"] ∧
      dictionary.Run (history.filterMap served) node.storage.get := by
  have checked : ((lifetime alone).execute (List.replicate 60 ⟨.tick, []⟩ ++
      [⟨.client (.set "k" "a|b\n"), [none]⟩, ⟨.client (.get "k"), []⟩, ⟨.tick, []⟩,
        ⟨.client (.del "k"), [none]⟩, ⟨.client (.get "k"), []⟩]) alone).any (fun result =>
        decide (Meets Quiet result.1 ∧
          (result.1.filterMap served).map Systems.Transition.event =
            [.get "k", .del "k", .get "k", .set "k" "a|b\n"] ∧
          (result.1.filterMap served).map Systems.Transition.output =
            [.null, .integer 1, .bulkString "a|b\n", .simpleString "OK"])) = true := by
    decide +kernel
  rcases System.exists_run rfl checked with ⟨history, node, run, holds⟩
  rcases of_decide_eq_true holds with ⟨quiet, asked, answered⟩
  exact ⟨history, node, run, quiet, asked, answered,
    (single_node_refines (new_initial [1] 1) run quiet).1⟩

end Service
end RaftStore
