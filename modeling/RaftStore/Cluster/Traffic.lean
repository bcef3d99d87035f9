import Mathlib.Algebra.Order.BigOperators.Group.List
import Mathlib.Algebra.Order.Ring.Nat
import RaftStore.Cluster.Leaders
import RaftStore.Cluster.Refinement
import RaftStore.Raft.Specification

namespace RaftStore
namespace Cluster

open Raft Systems RaftNode

/-!
# How many messages there can be

Messages call forth messages: a request is answered, and the answer to a vote request
can make a leader, which writes to all the others.  It ends there.  So a run whose
network duplicates nothing has no more deliveries than its ticks and proposals account
for.
-/

/-- The most deliveries that a message can lead to, its own included, with so many other
nodes. -/
def NetworkMessage.weight (others : Nat) : NetworkMessage -> Nat
  | .requestVote _ _ => 2 * others + 2
  | .requestVoteResponse _ _ => 2 * others + 1
  | .appendEntries _ _ => 2
  | .appendEntriesResponse _ _ => 1

/-- The deliveries that the packets can lead to. -/
def weightOf (others : Nat) (packets : List Packet) : Nat :=
  (packets.map fun packet => packet.message.weight others).sum

/-- The packets that the actions send. -/
def packetsOf (sender : Nat) (actions : List Action) : List Packet :=
  actions.filterMap (packetOf sender)

theorem weightOf_append (others : Nat) (front back : List Packet) :
    weightOf others (front ++ back) = weightOf others front + weightOf others back := by
  rw [weightOf, List.map_append, List.sum_append]
  rfl

section Calls

variable {node after : RaftNode} {actions : List Action} {sender others : Nat}

/-! ## What one call sends -/

/-- One packet at most for each action, and all of them light. -/
theorem weightOf_packetsOf_le {bound : Nat}
    (light : forall action packet, action ∈ actions -> packetOf sender action = some packet ->
      packet.message.weight others ≤ bound) :
    weightOf others (packetsOf sender actions) ≤ actions.length * bound := by
  have packed : (packetsOf sender actions).length ≤ actions.length := List.length_filterMap_le _ _
  have each : forall weight, weight ∈ (packetsOf sender actions).map
      (fun packet => packet.message.weight others) -> weight ≤ bound := by
    intro weight listed
    rcases List.mem_map.mp listed with ⟨packet, sent, rfl⟩
    rcases List.mem_filterMap.mp sent with ⟨action, emitted, given⟩
    exact light action packet emitted given
  have summed := List.sum_le_card_nsmul _ bound each
  rw [List.length_map, nsmul_eq_mul, Nat.cast_id] at summed
  exact Nat.le_trans summed (Nat.mul_le_mul_right bound packed)

theorem packetsOf_applications (node : RaftNode) (low high : Nat) :
    packetsOf sender (node.applications low high) = [] := by
  rw [packetsOf, List.filterMap_eq_nil_iff]
  intro action listed
  rcases mem_applications.mp listed with ⟨_, _, _, _, _, _, rfl⟩
  rfl

theorem packetsOf_append (front back : List Action) :
    packetsOf sender (front ++ back) = packetsOf sender front ++ packetsOf sender back :=
  List.filterMap_append

/-- A leader writes to every other node at most once. -/
theorem weightOf_replicateToAllPeers (few : node.state.otherPeers.length ≤ others) :
    weightOf others (packetsOf sender node.replicateToAllPeers) ≤ 2 * others := by
  have light : weightOf others (packetsOf sender node.replicateToAllPeers) ≤
      node.replicateToAllPeers.length * 2 := by
    apply weightOf_packetsOf_le
    intro action packet listed packed
    rcases mem_replicateToAllPeers listed with ⟨_, _, _, _, rfl⟩
    cases packed
    exact Nat.le_refl _
  have length : node.replicateToAllPeers.length ≤ node.state.otherPeers.length :=
    List.length_filterMap_le _ _
  omega

/-- A candidate asks every other node once. -/
theorem weightOf_requestVotes (few : node.state.otherPeers.length ≤ others) :
    weightOf others (packetsOf sender node.requestVotes) ≤ others * (2 * others + 2) := by
  have light : weightOf others (packetsOf sender node.requestVotes) ≤
      node.requestVotes.length * (2 * others + 2) := by
    apply weightOf_packetsOf_le
    intro action packet listed packed
    rcases List.mem_map.mp listed with ⟨_, _, rfl⟩
    cases packed
    exact Nat.le_refl _
  have length : node.requestVotes.length = node.state.otherPeers.length := List.length_map _
  rw [length] at light
  exact Nat.le_trans light (Nat.mul_le_mul_right _ few)

/-- A tick sends vote requests, heartbeats or nothing. -/
theorem weightOf_tick (few : node.state.otherPeers.length ≤ others)
    (ticked : node.tick = .ok (after, actions)) :
    weightOf others (packetsOf sender actions) ≤ others * (2 * others + 2) := by
  have probes : 2 * others ≤ others * (2 * others + 2) := by
    rw [Nat.mul_comm]
    exact Nat.mul_le_mul_left others (Nat.le_add_left 2 _)
  rcases RaftNode.tick_cases ticked with ⟨_, _, rfl⟩ | ⟨_, _, _, rfl | rfl⟩ | ⟨_, timeout, started⟩
  · exact Nat.zero_le _
  · exact Nat.zero_le _
  · exact Nat.le_trans (weightOf_replicateToAllPeers few) probes
  · rcases startElection_eq_ok.mp started with ⟨_, result⟩
    split at result
    · cases result
      exact Nat.le_trans (weightOf_replicateToAllPeers few) probes
    · cases result
      exact weightOf_requestVotes few

/-- A proposal sends one request to each of the others, or nothing. -/
theorem weightOf_propose {command : LogCommand} {proposal : Option (List Action)}
    (few : node.state.otherPeers.length ≤ others)
    (proposed : node.propose command = .ok (after, proposal)) :
    weightOf others (packetsOf sender (proposal.getD [])) ≤ 2 * others := by
  rcases propose_cases proposed with ⟨_, _, rfl⟩ | ⟨_, _, _, rfl⟩
  · exact Nat.zero_le _
  · rcases (node.withEntry command).maybeAdvanceCommitIndex_shape with ⟨_, _, low, high, shape⟩
    rw [Option.getD_some, packetsOf_append, shape, packetsOf_applications, List.append_nil]
    exact weightOf_replicateToAllPeers few

/-- What a message leads to at once weighs less than the message. -/
theorem Handled.weightOf_lt {message : NetworkMessage}
    (few : node.state.otherPeers.length ≤ others) (handled : Handled node message after actions) :
    weightOf others (packetsOf sender actions) < message.weight others := by
  cases handled with
  | requestVote _ request =>
      rcases node.handleRequestVote_cases request with
        ⟨_, result⟩ | ⟨_, _, _, result⟩ | ⟨_, _, result⟩
      all_goals
        rw [result]
        exact Nat.lt_succ_self _
  | requestVoteResponse voter response =>
      rcases node.handleRequestVoteResponse_cases voter response with
        result | ⟨_, _, result⟩ | ⟨_, _, result⟩
      · rw [result]
        exact Nat.succ_pos _
      · rw [result]
        exact Nat.succ_pos _
      · have same := congrArg RaftState.otherPeers (node.countVote_state voter response)
        rw [result]
        split
        · exact Nat.lt_succ_of_le (weightOf_replicateToAllPeers
            (Nat.le_trans (Nat.le_of_eq (congrArg List.length same)) few))
        · exact Nat.succ_pos _
  | appendEntries _ request returned =>
      rcases handleAppendEntries_cases returned with
        ⟨_, _, rfl⟩ | ⟨_, _, _, rfl⟩ | ⟨_, _, inserted, _, _, rfl⟩
      · exact Nat.lt_succ_self _
      · exact Nat.lt_succ_self _
      · rcases inserted.followCommit_shape request.leaderCommit with ⟨_, _, low, high, shape⟩
        rw [shape, packetsOf_append, packetsOf_applications, List.nil_append]
        exact Nat.lt_succ_self _
  | appendEntriesResponse _ response returned =>
      rcases handleAppendEntriesResponse_cases returned with
        ⟨_, _, rfl⟩ | ⟨_, _, _, rfl⟩ | ⟨_, _, _, recorded, _, result⟩ | ⟨_, _, _, _, rfl⟩
      · exact Nat.succ_pos _
      · exact Nat.succ_pos _
      · rcases recorded.maybeAdvanceCommitIndex_shape with ⟨_, _, low, high, shape⟩
        rw [shape] at result
        cases result
        rw [packetsOf_applications]
        exact Nat.succ_pos _
      · exact Nat.succ_pos _

end Calls

/-! ## Runs that duplicate nothing -/

/-- The packets that the event delivers. -/
def Event.delivered : Event -> List Packet
  | .deliver packet => [packet]
  | .tick _ => []
  | .propose _ _ => []
  | .restart _ => []

/-- The packets delivered in a run, the last one first. -/
def delivered (history : List Transition) : List Packet :=
  history.flatMap fun transition => transition.event.delivered

/-- No packet is delivered more often than it was sent. -/
def DeliversOnce (history : List Transition) (config : Configuration) : Prop :=
  (delivered history).Subperm config.network

instance (history : List Transition) (config : Configuration) :
    Decidable (DeliversOnce history config) :=
  inferInstanceAs (Decidable ((delivered history).Subperm config.network))

/-- The most deliveries that an event other than a delivery can lead to. -/
def Event.allowance (others : Nat) : Event -> Nat
  | .tick _ => others * (2 * others + 2)
  | .propose _ _ => 2 * others
  | .deliver _ => 0
  | .restart _ => 0

section Runs

variable {peers : List Nat} {history : List Transition} {config : Configuration} {event : Event}
  {after : RaftNode} {actions : List Action} {others : Nat}

/-- A member knows all the others. -/
theorem Run.otherPeers (distinct : peers.Nodup) (run : Run peers history config) {id : Nat}
    (member : id ∈ peers) : (config.nodes id).state.otherPeers.length = peers.length - 1 := by
  rcases Run.traces distinct run with ⟨ledger, traces⟩
  have represents := traces.simulates.nodes id member
  have unlike : (config.nodes id).state.peers.Nodup := by
    rw [represents.peers_eq]
    exact distinct
  have listed : (config.nodes id).state.id ∈ (config.nodes id).state.peers := by
    rw [represents.peers_eq, represents.id_eq]
    exact member
  have counted := RaftNode.length_otherPeers unlike listed
  rw [represents.peers_eq] at counted
  omega

/-- A step sends no more than its event allows and than it takes from the message that
it delivers, which is used up. -/
theorem respond_weightOf (few : (config.nodes event.actor).state.otherPeers.length ≤ others)
    (response : config.respond peers event = .ok (after, actions)) :
    weightOf others (packetsOf event.actor actions) + event.delivered.length ≤
      event.allowance others + weightOf others event.delivered := by
  cases event with
  | tick id => exact weightOf_tick few response
  | propose id command =>
      rcases Outcome.map_eq_ok.mp response with ⟨⟨proposed, proposal⟩, ok, equal⟩
      cases equal
      exact weightOf_propose few ok
  | deliver packet =>
      have lighter : weightOf others (packetsOf packet.recipient actions) <
          packet.message.weight others := (dispatch_handled response).weightOf_lt few
      change weightOf others (packetsOf packet.recipient actions) + 1 ≤
        0 + packet.message.weight others
      rw [Nat.zero_add]
      exact lighter
  | restart id =>
      cases response
      exact Nat.zero_le _

theorem delivered_cons (transition : Transition) (older : List Transition) :
    delivered (transition :: older) = transition.event.delivered ++ delivered older :=
  List.flatMap_cons

theorem total_delivered (history : List Transition) :
    total (fun event => event.delivered.length) history = (delivered history).length := by
  induction history with
  | nil => rfl
  | cons transition older inductionHypothesis =>
      rw [total, inductionHypothesis, delivered_cons, List.length_append]

theorem total_weightOf (others : Nat) (history : List Transition) :
    total (fun event => weightOf others event.delivered) history =
      weightOf others (delivered history) := by
  induction history with
  | nil => rfl
  | cons transition older inductionHypothesis =>
      rw [total, inductionHypothesis, delivered_cons, weightOf_append]

/-- Whatever is among the packets weighs no more than they do. -/
theorem weightOf_le_of_subperm (others : Nat) {part whole : List Packet}
    (among : part.Subperm whole) : weightOf others part ≤ weightOf others whole := by
  rcases among with ⟨sorted, permuted, sublist⟩
  calc
    weightOf others part = weightOf others sorted := ((permuted.map _).sum_eq).symm
    _ ≤ weightOf others whole := (sublist.map _).sum_le_sum fun _ _ => Nat.zero_le _

/-- **Messages die out.**  In every run that duplicates nothing, the ticks and the
proposals account for all deliveries. -/
theorem traffic_bounded (distinct : peers.Nodup) (run : Run peers history config)
    (once : DeliversOnce history config) :
    (delivered history).length ≤ total (Event.allowance (peers.length - 1)) history := by
  generalize size : peers.length - 1 = others
  have balance :
      weightOf others config.network + total (fun event => event.delivered.length) history ≤
        total (fun event => event.allowance others + weightOf others event.delivered) history := by
    apply System.Run.account (fun event => event.delivered.length)
      (fun event => event.allowance others + weightOf others event.delivered)
      (fun config => weightOf others config.network) _ _ run
    · rintro config rfl
      rfl
    · intro history config event actions next earlier stepped
      rcases Configuration.step_eq_some.mp stepped with ⟨member, _, after, response, rfl⟩
      have few := (Run.otherPeers distinct earlier member).trans size
      have sends := respond_weightOf (Nat.le_of_eq few) response
      change weightOf others (config.network ++ packetsOf event.actor actions) + _ ≤ _
      rw [weightOf_append]
      omega
  have paid := weightOf_le_of_subperm others once
  rw [total_add, total_delivered, total_weightOf] at balance
  omega

/-- Node 1 is elected.  Its 52 ticks would allow for more than the three deliveries. -/
theorem traffic_bounded_introduction :
    Exists fun history => Exists fun config => Run [1, 2, 3] history config ∧
      (delivered history).length = 3 ∧
      (delivered history).length ≤ total (Event.allowance 2) history := by
  have checked : (execute [1, 2, 3] introduction).any (fun result =>
      decide (DeliversOnce result.1 result.2 ∧ (delivered result.1).length = 3)) = true := by
    decide +kernel
  rcases exists_run checked with ⟨history, config, run, holds⟩
  rcases of_decide_eq_true holds with ⟨once, three⟩
  exact ⟨history, config, run, three, traffic_bounded (by decide) run once⟩

end Runs
end Cluster
end RaftStore
