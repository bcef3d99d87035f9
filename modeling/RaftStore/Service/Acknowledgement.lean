import RaftStore.Service.Steps

namespace RaftStore
namespace Service

open Raft Systems Cluster

/-!
# Acknowledged writes

A client that wrote at a server waits until the commit index reaches the index of
its entry.  Nobody looks at the entry again.  So the answer is right as long as no
other leader replaces the entry in the meantime, and wrong when one does and then
commits its own entry at the index.
-/

/-- The event is a client command at this server. -/
def Event.asks (id : Nat) : Event -> Bool
  | .client server _ => server = id
  | _ => false

/-- The last client command that a server has run. -/
def lastAsked (id : Nat) (history : List Transition) : Option Transition :=
  history.find? (fun transition => transition.event.asks id)

/-- The entry that the last client command at a server appended, in the term the
server had then, and where it did. -/
structure Appended (history : List Transition) (id index : Nat) (entry : LogEntry) (ok : Response) :
    Prop where
  asked : Exists fun asked => Exists fun command => lastAsked id history = some asked ∧
    asked.event = .client id command ∧ command.written = some (entry.command, ok) ∧
    (asked.target.servers id).node.pendingCommitIndex = some index ∧
    entry.term = (asked.source.raft id).state.currentTerm ∧
    (asked.target.raft id).state.log.get index = some entry

/-- At every answer to a write that is not the timeout, the log of the server
holds the entry of the write where it was appended, and the index is committed. -/
def RightlyAcknowledged (history : List Transition) : Prop :=
  forall newer config id late reply after older,
    history = newer ++ ⟨config, .poll id late, some reply, after⟩ :: older -> reply ≠ timeout ->
    Exists fun index => Exists fun entry => Appended older id index entry reply ∧
      (after.raft id).state.log.get index = some entry ∧
      index ≤ (after.raft id).state.commitIndex

/-- No client waits for an entry that an accepted request replaces: no request
conflicts with the log at or below the index the client waits for. -/
def Undisturbed (config : Configuration) : Event -> Prop
  | .deliver ⟨id, .appendEntries _ request⟩ => forall waiting,
      waiting ∈ (config.servers id).session -> Accepts (config.raft id) request ->
        ¬ RaftNode.Conflicts (config.raft id).state.log request waiting.index
  | _ => True

instance (config : Configuration) (event : Event) : Decidable (Undisturbed config event) :=
  match event with
  | .deliver ⟨_, .appendEntries _ _⟩ => inferInstanceAs (Decidable (forall _, _ -> _))
  | .deliver ⟨_, .appendEntriesResponse _ _⟩ => inferInstanceAs (Decidable True)
  | .deliver ⟨_, .requestVote _ _⟩ => inferInstanceAs (Decidable True)
  | .deliver ⟨_, .requestVoteResponse _ _⟩ => inferInstanceAs (Decidable True)
  | .tick _ => inferInstanceAs (Decidable True)
  | .client _ _ => inferInstanceAs (Decidable True)
  | .poll _ _ => inferInstanceAs (Decidable True)
  | .restart _ => inferInstanceAs (Decidable True)
  | .crash _ _ => inferInstanceAs (Decidable True)

/-- A client writes at node 1, node 2 takes the entry, and the client is
answered. -/
def plainWrite : List Event :=
  election ++
  [.client 1 (.set "k" "a"),
   .deliver ⟨2, .appendEntries 1 ⟨1, 1, 0, 0, [⟨1, .put "k" "a"⟩], 0⟩⟩,
   .poll 1 false,
   .deliver ⟨1, .appendEntriesResponse 2 ⟨1, true, some 1⟩⟩,
   .poll 1 false]

/-- A client writes at node 1.  Before the entry has reached anybody, node 2 is
elected in term 2 and commits another write at the same index, which node 1
takes over. -/
def replacedWrite : List Event :=
  election ++ ticks 2 41 ++
  [.client 1 (.set "k" "a"),
   .tick 2,
   .deliver ⟨3, .requestVote 2 ⟨2, 2, 0, 0⟩⟩,
   .deliver ⟨2, .requestVoteResponse 3 ⟨2, true⟩⟩,
   .client 2 (.set "k" "b"),
   .deliver ⟨3, .appendEntries 2 ⟨2, 2, 0, 0, [⟨2, .put "k" "b"⟩], 0⟩⟩,
   .deliver ⟨2, .appendEntriesResponse 3 ⟨2, true, some 1⟩⟩,
   .tick 2,
   .deliver ⟨1, .appendEntries 2 ⟨2, 2, 0, 0, [⟨2, .put "k" "b"⟩], 1⟩⟩,
   .poll 1 false]

section Results

variable {peers : List Nat} {history : List Transition} {config after : Configuration}

/-! ## Waiting clients -/

/-- The entry of every waiting client is in the log where it was appended. -/
def Keeps (history : List Transition) (config : Configuration) : Prop :=
  forall id waiting, (config.servers id).session = some waiting ->
    Exists fun entry => Appended history id waiting.index entry waiting.ok ∧
      (config.raft id).state.log.get waiting.index = some entry

/-- A step that is no command at this server does not change what was asked. -/
theorem Appended.next {id index : Nat} {entry : LogEntry} {ok : Response}
    (appended : Appended history id index entry ok) {transition : Transition}
    (other : transition.event.asks id = false) :
    Appended (transition :: history) id index entry ok := by
  rcases appended.asked with ⟨asked, command, found, rest⟩
  refine ⟨asked, command, ?_, rest⟩
  unfold lastAsked
  rw [List.find?_cons_of_neg (by simp [other])]
  exact found

/-- A dispatched message leaves the log alone up to an index, unless it is an
accepted request that conflicts with the log there. -/
theorem get_dispatch {node result : RaftNode} {message : NetworkMessage} {actions : List Action}
    (called : dispatch node message = .ok (result, actions)) {index : Nat} {entry : LogEntry}
    (present : node.state.log.get index = some entry)
    (agree : forall sender request, message = .appendEntries sender request ->
      Accepts node request -> ¬ RaftNode.Conflicts node.state.log request index) :
    result.state.log.get index = some entry := by
  rw [← present]
  cases dispatch_handled called with
  | requestVote sender request => rw [RaftNode.handleRequestVote_log node request]
  | requestVoteResponse sender response =>
      rw [RaftNode.handleRequestVoteResponse_log node sender response]
  | appendEntries sender request returned =>
      have inside : index < node.state.log.entries.length :=
        (List.getElem?_eq_some_iff.mp present).1
      exact RaftNode.get_handleAppendEntries returned inside
        (fun current passes => agree sender request rfl ⟨current, passes⟩) (Nat.le_refl _)
  | appendEntriesResponse sender response returned =>
      rw [RaftNode.handleAppendEntriesResponse_log returned]

/-- What the acting server keeps. -/
theorem Keeps.does (keeps : Keeps history config) {event : Event} {server : Server}
    {answer : Option Response} (undisturbed : Undisturbed config event)
    (does : (config.servers event.actor).Does peers event server answer) {waiting : Waiting}
    (session : server.session = some waiting)
    (target : (after.servers event.actor).node.pendingCommitIndex = server.node.pendingCommitIndex)
    (sameRaft : after.raft event.actor = server.node.raft) :
    Exists fun entry =>
      Appended (⟨config, event, answer, after⟩ :: history) event.actor waiting.index entry
        waiting.ok ∧
      server.node.raft.state.log.get waiting.index = some entry := by
  cases does with
  | @ticks id raft actions called =>
      rcases keeps _ waiting session with ⟨entry, appended, present⟩
      refine ⟨entry, appended.next rfl, ?_⟩
      change raft.state.log.get waiting.index = some entry
      rw [RaftNode.tick_log called]
      exact present
  | @receives packet raft actions called =>
      rcases keeps _ waiting session with ⟨entry, appended, present⟩
      refine ⟨entry, appended.next rfl, get_dispatch called present ?_⟩
      rcases packet with ⟨id, message⟩
      rintro sender request rfl accepts
      exact undisturbed waiting session accepts
  | answers free => cases session
  | @writes id command logged ok raft actions free written called =>
      cases session
      rcases RaftNode.propose_log called with ⟨impossible, _⟩ | ⟨_, _, log⟩
      · cases impossible
      · have present : raft.state.log.get raft.state.log.lastIndex =
            some ⟨(config.raft id).state.currentTerm, logged⟩ := by
          rw [log]
          simp [RaftLog.get, RaftLog.lastIndex, Configuration.raft, Event.actor]
        refine ⟨_, ⟨_, command, List.find?_cons_of_pos (by simp [Event.asks, Event.actor]), rfl, written, target,
          rfl, ?_⟩, present⟩
        change ((after.raft id).state.log).get _ = _
        rw [show after.raft id = _ from sameRaft]
        exact present
  | waits =>
      rcases keeps _ waiting session with ⟨entry, appended, present⟩
      exact ⟨entry, appended.next rfl, present⟩
  | acknowledges _ _ => cases session
  | expires => cases session
  | restarts _ => cases session
  | crashes _ _ _ _ => cases session

theorem Keeps.step (keeps : Keeps history config) {event : Event} {answer : Option Response}
    (undisturbed : Undisturbed config event)
    (stepped : config.step peers event = some (after, answer)) :
    Keeps (⟨config, event, answer, after⟩ :: history) after := by
  rcases Configuration.step_eq_some.mp stepped with ⟨_, _, server, responded, installed⟩
  have does := Server.does_of_respond responded
  intro id waiting session
  by_cases acting : id = event.actor
  · subst acting
    have own : after.servers event.actor =
        { server with node := { server.node with outboundMessages := [] } } := by
      rw [installed, Configuration.install_servers_self]
    rw [own] at session
    have sameRaft : after.raft event.actor = server.node.raft := by
      rw [Configuration.raft, own]
    rcases keeps.does undisturbed does session (by rw [own]) sameRaft with ⟨entry, appended, present⟩
    refine ⟨entry, appended, ?_⟩
    rw [sameRaft]
    exact present
  · have same : after.servers id = config.servers id := by
      rw [installed, Configuration.install_servers_of_ne _ _ _ acting]
    rw [same] at session
    rcases keeps id waiting session with ⟨entry, appended, present⟩
    refine ⟨entry, appended.next ?_, ?_⟩
    · cases event with
      | client server command =>
          have different : server ≠ id := fun equal => acting equal.symm
          simpa [Event.asks] using different
      | _ => rfl
    · rw [Configuration.raft, same]
      exact present

theorem Run.keeps (run : Run peers history config) (undisturbed : Meets Undisturbed history) :
    Keeps history config := by
  refine run.invariant Keeps ?_ ?_ undisturbed
  · rintro _ rfl id waiting session
    cases session
  · intro history config event answer after _ keeps undisturbed stepped
    exact keeps.step undisturbed stepped

/-! ## Answers -/

/-- **Acknowledged writes are committed.**  In a run in which no waiting client's
entry is replaced, every acknowledged write is the committed one. -/
theorem acknowledged_committed (run : Run peers history config)
    (undisturbed : Meets Undisturbed history) : RightlyAcknowledged history := by
  rintro newer source id late reply target older rfl notTimeout
  rcases run.split with ⟨earlier, stepped⟩
  change source.step peers (.poll id late) = some (target, some reply) at stepped
  have keeps := Run.keeps earlier (fun transition listed =>
    undisturbed transition (List.mem_append_right _ (List.mem_cons_of_mem _ listed)))
  rcases Configuration.step_eq_some.mp stepped with ⟨_, _, server, responded, installed⟩
  have own : target.raft id = server.node.raft := by
    have same := Configuration.install_servers_self peers source id server
    rw [Configuration.raft, installed]
    exact congrArg (fun server => server.node.raft) same
  cases Server.does_of_respond responded with
  | acknowledges session reached =>
      rcases keeps id _ session with ⟨entry, appended, present⟩
      refine ⟨_, entry, appended, ?_, ?_⟩
      · rw [own]
        exact present
      · rw [own]
        exact reached
  | expires => exact absurd rfl notTimeout

set_option maxRecDepth 100000 in
/-- The plain write is undisturbed, and its answer is right. -/
theorem acknowledged_committed_plainWrite :
    Exists fun history => Exists fun final => Run [1, 2, 3] history final ∧
      Meets Undisturbed history ∧
      (history.head?.any (fun transition =>
        decide (transition.output = some (.simpleString "OK"))) = true) ∧
      RightlyAcknowledged history := by
  have checked : (execute [1, 2, 3] plainWrite).any (fun result =>
      decide (Meets Undisturbed result.1) && result.1.head?.any (fun transition =>
        decide (transition.output = some (.simpleString "OK")))) = true := by decide +kernel
  rcases exists_run checked with ⟨history, final, run, holds⟩
  rcases Bool.and_eq_true_iff.mp holds with ⟨undisturbed, answered⟩
  exact ⟨history, final, run, of_decide_eq_true undisturbed, answered,
    acknowledged_committed run (of_decide_eq_true undisturbed)⟩

set_option maxRecDepth 100000 in
/-- The client whose write was replaced is told that it was committed. -/
theorem replaced_acknowledged :
    ¬ forall history final, Run [1, 2, 3] history final -> RightlyAcknowledged history := by
  intro right
  have checked : (execute [1, 2, 3] replacedWrite).any (fun result =>
      (result.1.head?.any (fun last => decide (last.event = .poll 1 false ∧
        last.output = some (.simpleString "OK") ∧
        (last.target.raft 1).state.log.get 1 = some ⟨2, .put "k" "b"⟩))) &&
      ((lastAsked 1 result.1.tail).any (fun asked => decide (
        asked.event = .client 1 (.set "k" "a") ∧
        (asked.target.servers 1).node.pendingCommitIndex = some 1)))) = true := by decide +kernel
  rcases exists_run checked with ⟨history, final, run, holds⟩
  rcases Bool.and_eq_true_iff.mp holds with ⟨answered, wrote⟩
  cases history with
  | nil => cases answered
  | cons last older =>
      rcases last with ⟨config, event, output, after⟩
      rcases of_decide_eq_true answered with ⟨polled, replied, replaced⟩
      simp only at polled replied replaced
      subst polled replied
      rcases (Option.any_eq_true _ _).mp wrote with ⟨asked, found, facts⟩
      rcases of_decide_eq_true facts with ⟨command, pending⟩
      rcases right _ final run [] config 1 false _ after older rfl (by decide) with
        ⟨index, entry, ⟨other, asking, foundToo, event, written, index_eq, _⟩, present, _⟩
      rw [show lastAsked 1 older = some asked from found] at foundToo
      cases foundToo
      rw [command] at event
      cases event
      rw [pending] at index_eq
      cases index_eq
      rw [replaced] at present
      cases present
      simp [Command.written] at written

end Results
end Service
end RaftStore
