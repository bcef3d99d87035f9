import RaftStore.Cluster.Calls
import RaftStore.Cluster.Refinement

namespace RaftStore
namespace Cluster

open Raft Systems RaftNode

/-!
# Who sends to whom, and in which term

A node asks the peers other than itself, and it answers who asked.  So every
packet goes from one member of the cluster to another one, and no packet carries
a term that its sender has not reached.
-/

/-- The node a message comes from. -/
def NetworkMessage.sender : NetworkMessage -> Nat
  | .requestVote sender _ => sender
  | .requestVoteResponse sender _ => sender
  | .appendEntries sender _ => sender
  | .appendEntriesResponse sender _ => sender

/-- The term a message carries. -/
def NetworkMessage.term : NetworkMessage -> Nat
  | .requestVote _ request => request.term
  | .requestVoteResponse _ response => response.term
  | .appendEntries _ request => request.term
  | .appendEntriesResponse _ response => response.term

theorem sender_of_packetOf {id : Nat} {action : Action} {packet : Packet}
    (packed : packetOf id action = some packet) : packet.message.sender = id := by
  cases action <;> cases packed <;> rfl

theorem term_of_packetOf {id : Nat} {action : Action} {packet : Packet}
    (packed : packetOf id action = some packet) : termOf action = some packet.message.term := by
  cases action <;> cases packed <;> rfl

/-- The node that gets an answer to the message. -/
def NetworkMessage.inquirer : NetworkMessage -> Option Nat
  | .requestVote _ request => some request.candidateId
  | .appendEntries _ request => some request.leaderId
  | _ => none

/-- The node an action sends to. -/
def recipientOf : Action -> Option Nat
  | .sendRequestVote recipient _ => some recipient
  | .sendRequestVoteResponse recipient _ => some recipient
  | .sendAppendEntries recipient _ => some recipient
  | .sendAppendEntriesResponse recipient _ => some recipient
  | .applyEntry _ _ => none

/-- The actions send to the given nodes only. -/
def SendsTo (Target : Nat -> Prop) (actions : List Action) : Prop :=
  forall action recipient, action ∈ actions -> recipientOf action = some recipient -> Target recipient

section Calls

variable {Target : Nat -> Prop} {node after : RaftNode} {actions : List Action}

theorem sendsTo_nil : SendsTo Target [] :=
  fun _ _ listed => (List.not_mem_nil listed).elim

theorem SendsTo.append {more : List Action} (first : SendsTo Target actions)
    (second : SendsTo Target more) : SendsTo Target (actions ++ more) := by
  intro action recipient listed sent
  rcases List.mem_append.mp listed with before | behind
  · exact first action recipient before sent
  · exact second action recipient behind sent

theorem sendsTo_singleton {action : Action} {target : Nat} (sent : recipientOf action = some target)
    (allowed : Target target) : SendsTo Target [action] := by
  intro other recipient listed found
  rw [List.mem_singleton.mp listed, sent] at found
  cases found
  exact allowed

theorem sendsTo_applications (node : RaftNode) (low high : Nat) :
    SendsTo Target (node.applications low high) := by
  intro action recipient listed sent
  rcases mem_applications.mp listed with ⟨_, _, _, _, _, _, rfl⟩
  cases sent

theorem sendsTo_replicateToAllPeers
    (peers : forall peer, peer ∈ node.state.otherPeers -> Target peer) :
    SendsTo Target node.replicateToAllPeers := by
  intro action recipient listed sent
  rcases mem_replicateToAllPeers listed with ⟨peerId, _, member, _, rfl⟩
  cases sent
  exact peers _ member

theorem sendsTo_requestVotes (peers : forall peer, peer ∈ node.state.otherPeers -> Target peer) :
    SendsTo Target node.requestVotes := by
  intro action recipient listed sent
  rcases List.mem_map.mp listed with ⟨peerId, member, rfl⟩
  cases sent
  exact peers _ member

theorem tick_sendsTo (peers : forall peer, peer ∈ node.state.otherPeers -> Target peer)
    (ticked : node.tick = .ok (after, actions)) : SendsTo Target actions := by
  rcases tick_cases ticked with ⟨_, _, rfl⟩ | ⟨_, _, _, rfl | rfl⟩ | ⟨_, timeout, started⟩
  · exact sendsTo_nil
  · exact sendsTo_nil
  · exact sendsTo_replicateToAllPeers peers
  · rcases startElection_eq_ok.mp started with ⟨_, result⟩
    split at result
    · cases result
      exact sendsTo_replicateToAllPeers peers
    · cases result
      exact sendsTo_requestVotes peers

theorem propose_sendsTo (peers : forall peer, peer ∈ node.state.otherPeers -> Target peer)
    {command : LogCommand} {emitted : Option (List Action)}
    (proposed : node.propose command = .ok (after, emitted)) : SendsTo Target (emitted.getD []) := by
  rcases propose_cases proposed with ⟨_, _, rfl⟩ | ⟨_, _, _, rfl⟩
  · exact sendsTo_nil
  · rcases (node.withEntry command).maybeAdvanceCommitIndex_shape with ⟨_, _, low, high, shape⟩
    rw [shape]
    have replicated : SendsTo Target (node.withEntry command).replicateToAllPeers :=
      sendsTo_replicateToAllPeers peers
    exact replicated.append (sendsTo_applications _ low high)

/-- At a received message a node asks its peers or answers who asked. -/
theorem dispatch_sendsTo (peers : forall peer, peer ∈ node.state.otherPeers -> Target peer)
    {message : NetworkMessage}
    (inquirer : forall asking, message.inquirer = some asking -> Target asking)
    (dispatched : dispatch node message = .ok (after, actions)) : SendsTo Target actions := by
  cases dispatch_handled dispatched with
  | requestVote sender request =>
      have answers := inquirer _ rfl
      rcases node.handleRequestVote_cases request with
        ⟨_, equal⟩ | ⟨_, _, _, equal⟩ | ⟨_, _, equal⟩ <;>
        · rw [equal]
          exact sendsTo_singleton rfl answers
  | requestVoteResponse sender response =>
      have counted := node.countVote_state sender response
      rcases node.handleRequestVoteResponse_cases sender response with
        equal | ⟨_, _, equal⟩ | ⟨_, _, equal⟩
      · rw [equal]
        exact sendsTo_nil
      · rw [equal]
        exact sendsTo_nil
      · rw [equal]
        split
        · have named : forall peer,
              peer ∈ (node.countVote sender response).winElection.1.state.otherPeers ->
                Target peer := by
            change forall peer, peer ∈ (node.countVote sender response).state.otherPeers -> _
            rw [counted]
            exact peers
          exact sendsTo_replicateToAllPeers named
        · exact sendsTo_nil
  | appendEntries sender request returned =>
      have answers := inquirer _ rfl
      rcases handleAppendEntries_cases returned with
        ⟨_, _, rfl⟩ | ⟨_, _, _, rfl⟩ | ⟨_, _, inserted, _, rfl, rfl⟩
      · exact sendsTo_singleton rfl answers
      · exact sendsTo_singleton rfl answers
      · rcases inserted.followCommit_shape request.leaderCommit with ⟨_, _, low, high, shape⟩
        rw [shape]
        exact (sendsTo_applications _ low high).append (sendsTo_singleton rfl answers)
  | appendEntriesResponse sender response returned =>
      rcases handleAppendEntriesResponse_cases returned with
        ⟨_, _, rfl⟩ | ⟨_, _, _, rfl⟩ | ⟨_, _, _, recorded, _, equal⟩ | ⟨_, _, _, _, rfl⟩
      · exact sendsTo_nil
      · exact sendsTo_nil
      · rcases recorded.maybeAdvanceCommitIndex_shape with ⟨_, _, low, high, shape⟩
        rw [shape] at equal
        cases equal
        exact sendsTo_applications _ low high
      · exact sendsTo_nil

end Calls

/-! ## The calls of one node in a cluster -/

/-- What an event is to the node it happens at. -/
def Event.occurrence : Event -> Occurrence
  | .tick _ => .call .tick
  | .propose _ command => .call (.propose command)
  | .deliver packet => .call (.receive packet.message)
  | .restart _ => .restart

/-- The steps of a run at which a node acts, seen from the node. -/
def momentsOf (id : Nat) (history : List Transition) :
    List (Systems.Transition RaftNode Occurrence (List Action)) :=
  history.filterMap fun transition =>
    if transition.event.actor = id then
      some ⟨transition.source.nodes id, transition.event.occurrence, transition.output,
        transition.target.nodes id⟩
    else none

section Runs

variable {peers : List Nat} {history : List Transition} {config next : Configuration} {event : Event}
  {actions : List Action}

/-- The packet goes from one member to another, and its sender has reached its
term. -/
structure Addressed (peers : List Nat) (config : Configuration) (packet : Packet) : Prop where
  sender : packet.message.sender ∈ peers
  recipient : packet.recipient ∈ peers
  different : packet.recipient ≠ packet.message.sender
  dated : packet.message.term ≤ (config.nodes packet.message.sender).state.currentTerm

/-- The asking node of a justified message is its sender. -/
theorem Justified.inquirer_eq {ledger : Consensus.Ledger Nat LogEntry} {packet : Packet}
    (justified : Justified peers ledger packet) {asking : Nat}
    (asks : packet.message.inquirer = some asking) : asking = packet.message.sender := by
  rcases packet with ⟨recipient, message⟩
  cases message with
  | requestVote sender request =>
      cases asks
      exact justified.1
  | appendEntries sender request =>
      cases asks
      exact justified.1
  | requestVoteResponse sender response => cases asks
  | appendEntriesResponse sender response => cases asks

/-- What a step sends goes to other members. -/
theorem Simulates.respond_sendsTo {ledger : Consensus.Ledger Nat LogEntry}
    (simulates : Simulates peers config ledger)
    (addressed : forall packet, packet ∈ config.network -> Addressed peers config packet)
    (member : event.actor ∈ peers) (enabled : config.Enabled event) {after : RaftNode}
    (response : config.respond peers event = .ok (after, actions)) :
    SendsTo (fun recipient => recipient ∈ peers ∧ recipient ≠ event.actor) actions := by
  have represents := simulates.nodes event.actor member
  have others : forall peer, peer ∈ (config.nodes event.actor).state.otherPeers ->
      peer ∈ peers ∧ peer ≠ event.actor := by
    intro peer listed
    rcases List.mem_filter.mp listed with ⟨inside, other⟩
    rw [represents.peers_eq] at inside
    rw [represents.id_eq] at other
    exact ⟨inside, of_decide_eq_true other⟩
  cases event with
  | tick id => exact tick_sendsTo others response
  | propose id command =>
      rcases Outcome.map_eq_ok.mp response with ⟨⟨proposed, emitted⟩, ok, equal⟩
      cases equal
      exact propose_sendsTo others ok
  | restart id =>
      cases response
      exact sendsTo_nil
  | deliver packet =>
      refine dispatch_sendsTo others (fun asking asks => ?_) response
      have known := addressed packet enabled
      rw [(simulates.packets packet enabled).inquirer_eq asks]
      exact ⟨known.sender, known.different.symm⟩

theorem respond_call {call : Call} (made : event.occurrence = .call call) {result}
    (response : config.respond peers event = .ok result) :
    call.run (config.nodes event.actor) = .ok result := by
  cases event <;> cases made <;> exact response

/-- **The messages of a cluster.**  Every packet goes from one member to another, and
carries a term that its sender has reached. -/
theorem packets_addressed (distinct : peers.Nodup) (run : Run peers history config)
    {packet : Packet} (listed : packet ∈ config.network) : Addressed peers config packet := by
  induction run generalizing packet with
  | start begins =>
      cases begins
      cases listed
  | @next history config next event actions run stepped inductionHypothesis =>
      rcases Run.traces distinct run with ⟨ledger, traces⟩
      have simulates := traces.simulates
      rcases simulates.step distinct traces.sound stepped with ⟨later, steps, simulated⟩
      have moves := steps.moves traces.sound
      have addressed := fun packet => @inductionHypothesis packet
      rcases Configuration.step_eq_some.mp stepped with ⟨member, enabled, after, response, rfl⟩
      have represents := simulates.nodes event.actor member
      have terms : forall id, id ∈ peers -> (config.nodes id).state.currentTerm ≤
          ((config.install event.actor after actions).nodes id).state.currentTerm := by
        intro id inside
        rw [(simulates.nodes id inside).term_eq, (simulated.nodes id inside).term_eq]
        exact moves.term_le id
      rcases Configuration.mem_install_network.mp listed with before | ⟨action, emitted, packed⟩
      · have known := addressed packet before
        exact ⟨known.sender, known.recipient, known.different,
          Nat.le_trans known.dated (terms _ known.sender)⟩
      · have sender := sender_of_packetOf packed
        have target := simulates.respond_sendsTo addressed member enabled response action
          packet.recipient emitted (by cases action <;> cases packed <;> rfl)
        refine ⟨by rw [sender]; exact member, target.1, by rw [sender]; exact target.2, ?_⟩
        rw [sender, Configuration.install_nodes_self]
        cases occurrence : event.occurrence with
        | restart =>
            cases event <;> cases occurrence
            cases response
            cases emitted
        | call made =>
            have dutiful := dutiful_call represents.saved.isSome (respond_call occurrence response)
            exact dutiful.terms action _ emitted (term_of_packetOf packed)

end Runs
end Cluster
end RaftStore
