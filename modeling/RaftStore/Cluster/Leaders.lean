import RaftStore.Cluster.Run
import RaftStore.Raft.Effects

namespace RaftStore
namespace Cluster

open Raft Systems RaftNode

/-!
# The leader a node knows of

A node learns of a leader by winning an election or from a replication request,
and it forgets it when it stands for election.  It does not forget it when it
steps down: `become_follower` moves to the new term and keeps `leader_id`.  So a
node that knows a leader and hears of a later term from anybody else takes the
old leader for the leader of the new term.
-/

/-- The message makes the node step up to a later term with a leader in mind. -/
def Misleads (node : RaftNode) : NetworkMessage -> Prop
  | .requestVote _ request =>
      node.state.leaderId ≠ none ∧ node.state.currentTerm < request.term
  | .appendEntriesResponse _ response =>
      node.state.role = .leader ∧ node.state.currentTerm < response.term
  | _ => False

instance (node : RaftNode) (message : NetworkMessage) : Decidable (Misleads node message) :=
  match message with
  | .requestVote _ _ => inferInstanceAs (Decidable (_ ∧ _))
  | .appendEntriesResponse _ _ => inferInstanceAs (Decidable (_ ∧ _))
  | .requestVoteResponse _ _ => inferInstanceAs (Decidable False)
  | .appendEntries _ _ => inferInstanceAs (Decidable False)

/-- No step delivers such a message. -/
def Attentive (config : Configuration) : Event -> Prop
  | .deliver packet => ¬ Misleads (config.nodes packet.recipient) packet.message
  | _ => True

instance (config : Configuration) (event : Event) : Decidable (Attentive config event) :=
  match event with
  | .deliver _ => inferInstanceAs (Decidable (¬ _))
  | .tick _ => inferInstanceAs (Decidable True)
  | .propose _ _ => inferInstanceAs (Decidable True)
  | .restart _ => inferInstanceAs (Decidable True)

/-- A node has been leader of a term at some moment of a run. -/
def HasLed (history : List Transition) (final : Configuration) (leader term : Nat) : Prop :=
  Exists fun moment => Visits history final moment ∧
    (moment.nodes leader).state.role = .leader ∧
    (moment.nodes leader).state.currentTerm = term

/-! ## One call -/

/-- What a call does to the leader a node knows of.  `Told` are the leaders, with
their terms, that the input of the call tells of. -/
structure Heeds (Told : Nat -> Nat -> Prop) (node after : RaftNode) (actions : List Action) :
    Prop where
  id : after.state.id = node.state.id
  known : forall leader, after.state.leaderId = some leader ->
    (after.state.role = .leader ∧ after.state.id = leader) ∨
    (node.state.leaderId = some leader ∧ after.state.currentTerm = node.state.currentTerm) ∨
    Told leader after.state.currentTerm
  stands : after.state.role = .candidate -> after.state.leaderId = none
  sends : forall recipient request, Action.sendAppendEntries recipient request ∈ actions ->
    after.state.role = .leader ∧ request.term = after.state.currentTerm ∧
      request.leaderId = after.state.id

section Calls

variable {Told : Nat -> Nat -> Prop} {node after : RaftNode} {actions : List Action}

/-- A leader's requests carry its term and its id. -/
theorem sends_replicateToAllPeers {recipient : Nat} {request : AppendEntriesRequest}
    (listed : Action.sendAppendEntries recipient request ∈ node.replicateToAllPeers) :
    request.term = node.state.currentTerm ∧ request.leaderId = node.state.id := by
  rcases mem_replicateToAllPeers listed with ⟨_, _, _, _, same⟩
  cases same
  exact ⟨rfl, rfl⟩

/-- A call that leaves the node with its role, its term and its leader. -/
theorem heeds_same (stands : node.state.role = .candidate -> node.state.leaderId = none)
    (id : after.state.id = node.state.id) (role : after.state.role = node.state.role)
    (term : after.state.currentTerm = node.state.currentTerm)
    (leader : after.state.leaderId = node.state.leaderId) (silent : Requestless actions) :
    Heeds Told node after actions where
  id := id
  known := fun _ known => Or.inr (Or.inl ⟨leader.symm.trans known, term⟩)
  stands := fun candidate => leader.trans (stands (role.symm.trans candidate))
  sends := fun recipient request listed => absurd listed (silent recipient request)

/-- A node that knows of no leader afterwards. -/
theorem heeds_unaware (id : after.state.id = node.state.id) (leader : after.state.leaderId = none)
    (silent : Requestless actions) : Heeds Told node after actions where
  id := id
  known := fun _ known => by rw [leader] at known; cases known
  stands := fun _ => leader
  sends := fun recipient request listed => absurd listed (silent recipient request)

/-- A node that has been told of a leader. -/
theorem heeds_told {leader term : Nat} (id : after.state.id = node.state.id)
    (role : after.state.role = .follower) (current : after.state.currentTerm = term)
    (known : after.state.leaderId = some leader) (silent : Requestless actions) :
    Heeds (fun other told => leader = other ∧ term = told) node after actions where
  id := id
  known := fun other same => Or.inr (Or.inr
    ⟨Option.some.inj (known.symm.trans same), current.symm⟩)
  stands := fun candidate => by rw [role] at candidate; cases candidate
  sends := fun recipient request listed => absurd listed (silent recipient request)

/-- A node that has won an election knows itself. -/
theorem heeds_winElection {candidate : RaftNode} (id : candidate.state.id = node.state.id) :
    Heeds Told node candidate.winElection.1 candidate.winElection.2 where
  id := id
  known := fun leader known => Or.inl ⟨rfl, Option.some.inj known⟩
  stands := fun candidate => by cases candidate
  sends := fun _ _ listed => ⟨rfl, sends_replicateToAllPeers listed⟩

theorem tick_heeds (stands : node.state.role = .candidate -> node.state.leaderId = none)
    (ticked : node.tick = .ok (after, actions)) : Heeds Told node after actions := by
  rcases tick_cases ticked with ⟨_, rfl, rfl⟩ | ⟨leads, _, rfl, sent⟩ | ⟨_, _, started⟩
  · exact heeds_same stands rfl rfl rfl rfl requestless_nil
  · rcases sent with rfl | rfl
    · exact heeds_same stands rfl rfl rfl rfl requestless_nil
    · have quiet : Heeds Told node _ [] := heeds_same stands rfl rfl rfl rfl requestless_nil
      exact { quiet with sends := fun _ _ listed => ⟨leads, sends_replicateToAllPeers listed⟩ }
  · rcases startElection_eq_ok.mp started with ⟨_, result⟩
    split at result
    · cases result
      exact heeds_winElection rfl
    · cases result
      exact heeds_unaware rfl rfl (requestless_requestVotes _)

theorem handleRequestVote_heeds
    (stands : node.state.role = .candidate -> node.state.leaderId = none)
    {request : RequestVoteRequest}
    (clear : ¬ (node.state.leaderId ≠ none ∧ node.state.currentTerm < request.term)) :
    Heeds Told node (node.handleRequestVote request).1 (node.handleRequestVote request).2 := by
  have silent : forall response, Requestless
      [Action.sendRequestVoteResponse request.candidateId response] :=
    requestless_voteResponse request.candidateId
  have raised : forall voter : RaftNode, forall emitted : List Action,
      voter.state.id = (node.raiseTerm request.term).state.id ->
      voter.state.role = (node.raiseTerm request.term).state.role ->
      voter.state.currentTerm = (node.raiseTerm request.term).state.currentTerm ->
      voter.state.leaderId = (node.raiseTerm request.term).state.leaderId ->
      Requestless emitted -> Heeds Told node voter emitted := by
    intro voter emitted id role term leader quiet
    unfold raiseTerm at id role term leader
    split at id
    · next higher =>
        rw [if_pos higher] at leader
        refine heeds_unaware (by rw [id]; simp) ?_ quiet
        have unknown : node.state.leaderId = none := by
          by_contra known
          exact clear ⟨known, higher⟩
        rw [leader, stepDown_state, RaftState.becomeFollower_leaderId, unknown]
    · next lower =>
        rw [if_neg lower] at role term leader
        exact heeds_same stands id role term leader quiet
  rcases node.handleRequestVote_cases request with ⟨_, equal⟩ | ⟨_, _, _, equal⟩ | ⟨_, _, equal⟩
  · rw [equal]
    exact heeds_same stands rfl rfl rfl rfl (silent _)
  · rw [equal]
    exact raised _ _ rfl rfl rfl rfl (silent _)
  · rw [equal]
    exact raised _ _ rfl rfl rfl rfl (silent _)

theorem handleRequestVoteResponse_heeds
    (stands : node.state.role = .candidate -> node.state.leaderId = none) (sender : Nat)
    (response : RequestVoteResponse) :
    Heeds Told node (node.handleRequestVoteResponse sender response).1
      (node.handleRequestVoteResponse sender response).2 := by
  have counted := node.countVote_state sender response
  rcases node.handleRequestVoteResponse_cases sender response with
    equal | ⟨role, _, equal⟩ | ⟨_, _, equal⟩
  · rw [equal]
    exact heeds_same stands rfl rfl rfl rfl requestless_nil
  · -- a candidate knows of no leader that it could take along
    rw [equal]
    exact heeds_unaware (by simp) (by simpa using stands role) requestless_nil
  · rw [equal]
    split
    · exact heeds_winElection (by rw [counted])
    · exact heeds_same stands (by rw [counted]) (by rw [counted]) (by rw [counted])
        (by rw [counted]) requestless_nil

theorem handleAppendEntries_heeds
    (stands : node.state.role = .candidate -> node.state.leaderId = none)
    {request : AppendEntriesRequest}
    (handled : node.handleAppendEntries request = .ok (after, actions)) :
    Heeds (fun leader term => request.leaderId = leader ∧ request.term = term) node after
      actions := by
  have silent : forall response, Requestless
      [Action.sendAppendEntriesResponse request.leaderId response] :=
    requestless_reply request.leaderId
  rcases handleAppendEntries_cases handled with
    ⟨_, rfl, rfl⟩ | ⟨current, _, rfl, rfl⟩ | ⟨current, _, inserted, ok, rfl, rfl⟩
  · exact heeds_same stands rfl rfl rfl rfl (silent _)
  · exact heeds_told (by simp) (by simp) (by simpa using current) rfl (silent _)
  · rcases inserted.followCommit_shape request.leaderCommit with ⟨_, _, low, high, shape⟩
    rw [shape]
    rcases insertEntries_shape ok with ⟨log, persister, rfl⟩
    exact heeds_told (by simp [withCommit]) (by simp [withCommit])
      (by simpa [withCommit] using current) rfl
      ((requestless_applications _ low high).append (silent _))

theorem handleAppendEntriesResponse_heeds
    (stands : node.state.role = .candidate -> node.state.leaderId = none) {sender : Nat}
    {response : AppendEntriesResponse}
    (clear : ¬ (node.state.role = .leader ∧ node.state.currentTerm < response.term))
    (handled : node.handleAppendEntriesResponse sender response = .ok (after, actions)) :
    Heeds Told node after actions := by
  rcases handleAppendEntriesResponse_cases handled with
    ⟨_, rfl, rfl⟩ | ⟨leads, higher, _⟩ | ⟨_, _, _, recorded, ok, equal⟩ | ⟨_, _, _, ok, rfl⟩
  · exact heeds_same stands rfl rfl rfl rfl requestless_nil
  · exact absurd ⟨leads, higher⟩ clear
  · rcases recordMatch_eq_ok ok with ⟨matchIndex, nextIndex, rfl, _⟩
    rcases maybeAdvanceCommitIndex_shape { node with state := { node.state with
      matchIndex := matchIndex, nextIndex := nextIndex } } with ⟨_, _, low, high, shape⟩
    rw [shape] at equal
    cases equal
    exact heeds_same stands rfl rfl rfl rfl (requestless_applications _ low high)
  · rcases recordRejection_eq_ok ok with ⟨nextIndex, rfl, _⟩
    exact heeds_same stands rfl rfl rfl rfl requestless_nil

theorem propose_heeds (stands : node.state.role = .candidate -> node.state.leaderId = none)
    {command : LogCommand} {emitted : Option (List Action)}
    (proposed : node.propose command = .ok (after, emitted)) :
    Heeds Told node after (emitted.getD []) := by
  rcases propose_cases proposed with ⟨_, rfl, rfl⟩ | ⟨leads, _, rfl, rfl⟩
  · exact heeds_same stands rfl rfl rfl rfl requestless_nil
  · rcases (node.withEntry command).maybeAdvanceCommitIndex_shape with ⟨_, _, low, high, shape⟩
    rw [shape]
    have quiet : Heeds Told node _ [] := heeds_same stands rfl rfl rfl rfl requestless_nil
    refine { quiet with sends := fun recipient request listed => ?_ }
    rcases List.mem_append.mp listed with replicated | applied
    · have carried := sends_replicateToAllPeers replicated
      exact ⟨leads, carried.1, carried.2⟩
    · exact absurd applied (requestless_applications _ low high recipient request)

theorem Heeds.mono {Known : Nat -> Nat -> Prop} (heeds : Heeds Told node after actions)
    (covers : forall leader term, Told leader term -> Known leader term) :
    Heeds Known node after actions where
  id := heeds.id
  known := fun leader same => (heeds.known leader same).imp_right
    (Or.imp_right (covers leader after.state.currentTerm))
  stands := heeds.stands
  sends := heeds.sends

end Calls

/-! ## Whole runs -/

section Runs

variable {peers : List Nat} {history : List Transition} {config final : Configuration}

/-- A replication request on the network tells of a leader. -/
def Announced (config : Configuration) (leader term : Nat) : Prop :=
  Exists fun packet => packet ∈ config.network ∧ Exists fun sender => Exists fun request =>
    packet.message = .appendEntries sender request ∧ request.leaderId = leader ∧
      request.term = term

/-- All that is known or announced of leaders is true. -/
structure Informed (history : List Transition) (config : Configuration) : Prop where
  ids : forall id, (config.nodes id).state.id = id
  stands : forall id, (config.nodes id).state.role = .candidate ->
    (config.nodes id).state.leaderId = none
  nodes : forall id leader, (config.nodes id).state.leaderId = some leader ->
    HasLed history config leader (config.nodes id).state.currentTerm
  announced : forall leader term, Announced config leader term -> HasLed history config leader term

theorem Informed.respond_heeds (informed : Informed history config) {event : Event}
    (enabled : config.Enabled event) (attentive : Attentive config event) {after : RaftNode}
    {actions : List Action} (response : config.respond peers event = .ok (after, actions)) :
    Heeds (Announced config) (config.nodes event.actor) after actions := by
  have stands := informed.stands event.actor
  cases event with
  | tick id => exact tick_heeds stands response
  | propose id command =>
      rcases Outcome.map_eq_ok.mp response with ⟨⟨proposed, emitted⟩, ok, equal⟩
      cases equal
      exact propose_heeds stands ok
  | restart id =>
      cases response
      have awakened := Configuration.awakened_restarted peers id (config.nodes id)
      exact heeds_unaware (awakened.id.trans (informed.ids id).symm) awakened.leader requestless_nil
  | deliver packet =>
      rcases packet with ⟨recipient, message⟩
      cases dispatch_handled response with
      | requestVote sender request => exact handleRequestVote_heeds stands attentive
      | requestVoteResponse sender vote => exact handleRequestVoteResponse_heeds stands sender vote
      | appendEntries sender request returned =>
          apply (handleAppendEntries_heeds stands returned).mono
          rintro leader term ⟨rfl, rfl⟩
          exact ⟨_, enabled, sender, request, rfl, rfl, rfl⟩
      | appendEntriesResponse sender reply returned =>
          exact handleAppendEntriesResponse_heeds stands attentive returned

theorem HasLed.later {leader term : Nat} (led : HasLed history config leader term) {event : Event}
    {actions : List Action} {next : Configuration} :
    HasLed (⟨config, event, actions, next⟩ :: history) next leader term := by
  rcases led with ⟨moment, visits, role, current⟩
  exact ⟨moment, visits.later, role, current⟩

/-- An attentive step keeps everybody informed. -/
theorem Informed.step (informed : Informed history config) {event : Event}
    (attentive : Attentive config event) {next : Configuration} {actions : List Action}
    (stepped : config.step peers event = some (next, actions)) :
    Informed (⟨config, event, actions, next⟩ :: history) next := by
  rcases Configuration.step_eq_some.mp stepped with ⟨_, enabled, after, response, rfl⟩
  have heeds := informed.respond_heeds enabled attentive response
  have self : (config.install event.actor after actions).nodes event.actor = after :=
    config.install_nodes_self event.actor after actions
  have acts : after.state.id = event.actor := heeds.id.trans (informed.ids event.actor)
  -- a node that is leader after the step has led its term by then
  have now : after.state.role = .leader ->
      HasLed (⟨config, event, actions, config.install event.actor after actions⟩ :: history)
        (config.install event.actor after actions) event.actor after.state.currentTerm :=
    fun leads => ⟨_, Or.inl rfl, by rw [self]; exact leads, by rw [self]⟩
  refine ⟨?_, ?_, ?_, ?_⟩
  · exact Configuration.forall_install_nodes (fun id node => node.state.id = id) acts
      fun other _ => informed.ids other
  · exact Configuration.forall_install_nodes
      (fun _ node => node.state.role = .candidate -> node.state.leaderId = none) heeds.stands
      fun other _ => informed.stands other
  · intro id leader known
    by_cases acting : id = event.actor
    · rw [acting, self] at known ⊢
      rcases heeds.known leader known with ⟨leads, own⟩ | ⟨before, term⟩ | told
      · rw [← own, acts]
        exact now leads
      · rw [term]
        exact (informed.nodes event.actor leader before).later
      · exact (informed.announced leader _ told).later
    · rw [Configuration.install_nodes_of_ne _ after actions acting] at known ⊢
      exact (informed.nodes id leader known).later
  · rintro leader term ⟨packet, listed, sender, request, message, rfl, rfl⟩
    rcases Configuration.request_of_mem_install listed message with before | emitted
    · exact (informed.announced _ _ ⟨packet, before, sender, request, message, rfl, rfl⟩).later
    · rcases heeds.sends packet.recipient request emitted with ⟨leads, term, own⟩
      rw [term, own, acts]
      exact now leads

/-- Node 1 is elected in term 1, and node 3 hears from it. -/
def introduction : List Event :=
  ticks 1 52 ++
  [.deliver ⟨2, .requestVote 1 ⟨1, 1, 0, 0⟩⟩,
   .deliver ⟨1, .requestVoteResponse 2 ⟨1, true⟩⟩,
   .deliver ⟨3, .appendEntries 1 ⟨1, 1, 0, 0, [], 0⟩⟩]

/-- Node 2 stands in term 2 and asks node 3 for its vote. -/
def rivalry : List Event :=
  ticks 2 42 ++ [.deliver ⟨3, .requestVote 2 ⟨2, 2, 0, 0⟩⟩]

/-- **The known leader leads the current term.**  In every configuration of an
attentive run, the leader that a node knows of has been leader of the node's
current term. -/
theorem known_leader_led (run : Run peers history final) (attentive : Meets Attentive history)
    {id leader : Nat} (known : (final.nodes id).state.leaderId = some leader) :
    HasLed history final leader (final.nodes id).state.currentTerm := by
  have informed : Informed history final := by
    refine run.invariant Informed ?_ ?_ attentive
    · intro config starts
      cases starts
      exact {
        ids := fun id => rfl
        stands := fun id candidate => by cases candidate
        nodes := fun id leader known => by cases known
        announced := by
          rintro leader term ⟨packet, listed, _⟩
          cases listed }
    · intro history config event actions next _ informed attentive stepped
      exact informed.step attentive stepped
  exact informed.nodes id leader known

set_option maxRecDepth 100000 in
/-- Node 3 has heard from node 1, which has led term 1. -/
theorem known_leader_led_introduction :
    Exists fun history => Exists fun final => Run [1, 2, 3] history final ∧
      (final.nodes 3).state.leaderId = some 1 ∧
      HasLed history final 1 (final.nodes 3).state.currentTerm := by
  have checked : (execute [1, 2, 3] introduction).any (fun result =>
      decide (Meets Attentive result.1) &&
      decide ((result.2.nodes 3).state.leaderId = some 1)) = true := by decide +kernel
  rcases exists_run checked with ⟨history, final, run, holds⟩
  rcases Bool.and_eq_true_iff.mp holds with ⟨attentive, known⟩
  exact ⟨history, final, run, of_decide_eq_true known,
    known_leader_led run (of_decide_eq_true attentive) (of_decide_eq_true known)⟩

set_option maxRecDepth 100000 in
/-- When node 2 asks node 3 for its vote in term 2, node 3 goes to term 2 and still
takes node 1 for the leader, which has never led that term. -/
theorem known_leader_outdated :
    ¬ forall history final, Run [1, 2, 3] history final -> forall id leader,
      (final.nodes id).state.leaderId = some leader ->
      HasLed history final leader (final.nodes id).state.currentTerm := by
  intro holds
  have checked : (execute [1, 2, 3] (introduction ++ rivalry)).any (fun result =>
      decide ((result.2.nodes 3).state.leaderId = some 1 ∧
        (result.2.nodes 3).state.currentTerm = 2 ∧ (result.2.nodes 1).state.currentTerm = 1 ∧
        forall transition, transition ∈ result.1 ->
          (transition.source.nodes 1).state.currentTerm < 2)) = true := by decide +kernel
  rcases exists_run checked with ⟨history, final, run, found⟩
  rcases of_decide_eq_true found with ⟨known, term, own, earlier⟩
  rcases holds history final run 3 1 known with ⟨moment, visits, _, current⟩
  rw [term] at current
  rcases visits with rfl | ⟨transition, listed, rfl⟩
  · rw [own] at current
    cases current
  · have below := earlier transition listed
    omega

end Runs
end Cluster
end RaftStore
