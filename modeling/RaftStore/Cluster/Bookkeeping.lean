import RaftStore.Cluster.Committed

namespace RaftStore
namespace Cluster

open Raft Consensus Systems

/-!
# The leader's tables

`match_index` is sound in every prudent run, because what a leader believes is
backed by the ledger.  `next_index` also moves on rejections: the hint of a
follower with a longer log takes it beyond the end of the leader's own log.
Without such hints the probes stay within the log.
-/

/-- A leader takes in a rejection whose hint is beyond the end of its own log. -/
def Overshoot (node : RaftNode) (response : AppendEntriesResponse) : Prop :=
  node.state.role = .leader ∧ response.term ≤ node.state.currentTerm ∧
    response.success = false ∧ node.state.log.lastIndex < response.matchIndex.getD 0

instance (node : RaftNode) (response : AppendEntriesResponse) :
    Decidable (Overshoot node response) :=
  inferInstanceAs (Decidable (_ ∧ _))

/-- A prudent step that takes no probe beyond the leader's log. -/
def Measured (config : Configuration) (event : Event) : Prop :=
  Prudent config event ∧
    match event with
    | .deliver ⟨recipient, .appendEntriesResponse _ response⟩ =>
        ¬ Overshoot (config.nodes recipient) response
    | _ => True

instance (config : Configuration) (event : Event) : Decidable (Measured config event) :=
  match event with
  | .deliver ⟨_, .appendEntriesResponse _ _⟩ => inferInstanceAs (Decidable (_ ∧ ¬ _))
  | .deliver ⟨_, .appendEntries _ _⟩ => inferInstanceAs (Decidable (_ ∧ True))
  | .deliver ⟨_, .requestVote _ _⟩ => inferInstanceAs (Decidable (_ ∧ True))
  | .deliver ⟨_, .requestVoteResponse _ _⟩ => inferInstanceAs (Decidable (_ ∧ True))
  | .tick _ => inferInstanceAs (Decidable (_ ∧ True))
  | .propose _ _ => inferInstanceAs (Decidable (_ ∧ True))
  | .restart _ => inferInstanceAs (Decidable (_ ∧ True))

/-- The probes of a leader are at most one beyond the end of its log. -/
def Probing (node : RaftNode) : Prop :=
  node.state.role = .leader ->
    forall pair, pair ∈ node.state.nextIndex -> pair.2 ≤ node.state.log.lastIndex + 1

/-! ## The probes, handler by handler -/

section Probes

variable {node after : RaftNode} {actions : List Action}

theorem probing_of_not_leader (role : node.state.role ≠ .leader) : Probing node :=
  fun leads => absurd leads role

theorem Probing.congr (probing : Probing node) (same : after.state = node.state) :
    Probing after := by
  unfold Probing
  rw [same]
  exact probing

theorem probing_winElection : Probing node.winElection.1 := by
  intro _ pair member
  rcases List.mem_map.mp member with ⟨peerId, _, rfl⟩
  exact Nat.le_refl _

theorem Probing.startElection (started : node.startElection = .ok (after, actions)) :
    Probing after := by
  rcases RaftNode.startElection_eq_ok.mp started with ⟨_, result⟩
  have first := congrArg Prod.fst result
  simp only at first
  rw [first]
  split
  · exact probing_winElection
  · exact probing_of_not_leader (by rintro ⟨⟩)

theorem Probing.tick (probing : Probing node) (ticked : node.tick = .ok (after, actions)) :
    Probing after := by
  rcases RaftNode.tick_cases ticked with ⟨_, rfl, _⟩ | ⟨_, _, rfl, _⟩ | ⟨_, _, started⟩
  · exact probing.congr rfl
  · exact probing.congr rfl
  · exact Probing.startElection started

theorem Probing.raiseTerm (probing : Probing node) (term : Nat) : Probing (node.raiseTerm term) := by
  unfold RaftNode.raiseTerm
  split
  · exact probing_of_not_leader (by simp)
  · exact probing

theorem Probing.handleRequestVote (probing : Probing node) (request : RequestVoteRequest) :
    Probing (node.handleRequestVote request).1 := by
  rcases node.handleRequestVote_cases request with ⟨_, equal⟩ | ⟨_, _, _, equal⟩ | ⟨_, _, equal⟩
  · rw [equal]
    exact probing
  · rw [equal]
    exact probing.raiseTerm request.term
  · rw [equal]
    exact probing.raiseTerm request.term

theorem Probing.handleRequestVoteResponse (probing : Probing node) (sender : Nat)
    (response : RequestVoteResponse) :
    Probing (node.handleRequestVoteResponse sender response).1 := by
  rcases node.handleRequestVoteResponse_cases sender response with
    equal | ⟨_, _, equal⟩ | ⟨_, _, equal⟩
  · rw [equal]
    exact probing
  · rw [equal]
    exact probing_of_not_leader (by simp)
  · rw [equal]
    split
    · exact probing_winElection
    · exact probing.congr (node.countVote_state sender response)

theorem followCommit_role (leaderCommit : Nat) :
    (node.followCommit leaderCommit).1.state.role = node.state.role := by
  rw [RaftNode.followCommit_eq]
  split <;> rfl

theorem Probing.handleAppendEntries (probing : Probing node) {request : AppendEntriesRequest}
    (handled : node.handleAppendEntries request = .ok (after, actions)) : Probing after := by
  rcases RaftNode.handleAppendEntries_cases handled with
    ⟨_, rfl, _⟩ | ⟨_, _, rfl, _⟩ | ⟨_, _, inserted, ok, rfl, _⟩
  · exact probing
  · exact probing_of_not_leader (by simp)
  · apply probing_of_not_leader
    rcases RaftNode.insertEntries_shape ok with ⟨_, _, rfl⟩
    rw [followCommit_role]
    simp

/-- The tables and the log are not touched by the commit rule. -/
theorem Probing.maybeAdvanceCommitIndex (probing : Probing node) :
    Probing node.maybeAdvanceCommitIndex.1 := by
  rw [RaftNode.maybeAdvanceCommitIndex_eq]
  split
  · exact probing
  · exact probing

theorem Probing.handleAppendEntriesResponse (probing : Probing node) {sender : Nat}
    {response : AppendEntriesResponse} (measured : ¬ Overshoot node response)
    (believable : node.state.role = .leader -> response.term ≤ node.state.currentTerm ->
      response.success = true -> forall reported, response.matchIndex = some reported ->
        reported ≤ node.state.log.lastIndex)
    (handled : node.handleAppendEntriesResponse sender response = .ok (after, actions)) :
    Probing after := by
  rcases RaftNode.handleAppendEntriesResponse_cases handled with
    ⟨_, rfl, rfl⟩ | ⟨_, _, rfl, rfl⟩ | ⟨role, bound, success, recorded, ok, equal⟩ |
    ⟨role, bound, rejected, ok, rfl⟩
  · exact probing
  · exact probing_of_not_leader (by simp)
  · have first : after = recorded.maybeAdvanceCommitIndex.1 := congrArg Prod.fst equal
    rw [first]
    apply Probing.maybeAdvanceCommitIndex
    rcases RaftNode.recordMatch_eq_ok ok with ⟨matchIndex, nextIndex, rfl, unchanged | updated⟩
    · rcases unchanged with ⟨_, _, rfl⟩
      exact probing
    · rcases updated with ⟨reported, given, _, moved⟩
      intro _ pair member
      rcases RaftNode.mem_updateFirst moved member with before | ⟨_, _, _, computed⟩
      · exact probing role pair before
      · rcases checkedAdd_eq_ok.mp computed with ⟨_, value⟩
        have inside := believable role bound success reported given
        change pair.2 ≤ node.state.log.lastIndex + 1
        omega
  · rcases RaftNode.recordRejection_eq_ok ok with ⟨nextIndex, rfl, moved⟩
    intro _ pair member
    rcases RaftNode.mem_updateFirst moved member with before | ⟨_, value, listed, computed⟩
    · exact probing role pair before
    · have old := probing role _ listed
      change pair.2 ≤ node.state.log.lastIndex + 1
      cases given : response.matchIndex with
      | none =>
          rw [given] at computed
          have next : (if value > 1 then value - 1 else value) = pair.2 := Except.ok.inj computed
          split at next <;> omega
      | some hint =>
          rw [given] at computed
          rcases checkedAdd_eq_ok.mp computed with ⟨_, next⟩
          have inside : hint ≤ node.state.log.lastIndex := by
            by_contra beyond
            apply measured
            exact ⟨role, bound, rejected, by rw [given]; exact Nat.lt_of_not_le beyond⟩
          omega

theorem Probing.propose (probing : Probing node) {command : LogCommand}
    {emitted : Option (List Action)} (proposed : node.propose command = .ok (after, emitted)) :
    Probing after := by
  rcases RaftNode.propose_cases proposed with ⟨_, rfl, _⟩ | ⟨role, _, rfl, _⟩
  · exact probing
  · apply Probing.maybeAdvanceCommitIndex
    intro _ pair member
    have old := probing role pair member
    have longer : (node.withEntry command).state.log.lastIndex =
        node.state.log.entries.length := by
      change (node.state.log.entries ++ [_]).length - 1 = _
      simp
    have before : node.state.log.lastIndex = node.state.log.entries.length - 1 := rfl
    omega

end Probes

/-! ## Runs -/

section Runs

variable {peers : List Nat} {history : List Transition} {config : Configuration}

/-- A success reply that a leader may believe reports an index of its log. -/
theorem CommitTrace.believable {ledger : Ledger Nat LogEntry}
    (trace : CommitTrace peers history config ledger) {recipient sender : Nat}
    {response : AppendEntriesResponse} (member : recipient ∈ peers)
    (inFlight : (⟨recipient, .appendEntriesResponse sender response⟩ : Packet) ∈ config.network)
    (prudent : ¬ StaleMatch (config.nodes recipient) response)
    (role : (config.nodes recipient).state.role = .leader)
    (bound : response.term ≤ (config.nodes recipient).state.currentTerm)
    (success : response.success = true) {reported : Nat}
    (given : response.matchIndex = some reported) :
    reported ≤ (config.nodes recipient).state.log.lastIndex := by
  have current : response.term = (config.nodes recipient).state.currentTerm := by
    by_contra other
    exact prudent ⟨role, success, Nat.lt_of_le_of_ne bound other⟩
  have represents := trace.simulates.nodes recipient member
  rcases trace.commits.packets _ inFlight success with ⟨r, index, same, found, inside, _⟩
  rcases represents.reign_of_leader trace.sound role with ⟨r', found', _, ownLog⟩
  rw [current, found'] at found
  cases found
  rw [given] at same
  cases same
  rw [RaftLog.lastIndex_eq_length_body, represents.log_eq, RaftLog.body_mk, ownLog]
  exact inside

theorem CommitTrace.probing_respond {ledger : Ledger Nat LogEntry}
    (trace : CommitTrace peers history config ledger) {event : Event}
    (member : event.actor ∈ peers) (enabled : config.Enabled event)
    (measured : Measured config event) (probing : Probing (config.nodes event.actor))
    {after : RaftNode} {actions : List Action}
    (response : config.respond peers event = .ok (after, actions)) : Probing after := by
  cases event with
  | tick id => exact probing.tick response
  | propose id command =>
      rcases Outcome.map_eq_ok.mp response with ⟨⟨proposed, emitted⟩, ok, equal⟩
      cases equal
      exact probing.propose ok
  | restart id =>
      cases response
      apply probing_of_not_leader
      rw [(Configuration.awakened_restarted peers id (config.nodes id)).role]
      rintro ⟨⟩
  | deliver packet =>
      rcases packet with ⟨recipient, message⟩
      cases dispatch_handled response with
      | requestVote sender request => exact probing.handleRequestVote request
      | requestVoteResponse sender vote => exact probing.handleRequestVoteResponse sender vote
      | appendEntries sender request returned => exact probing.handleAppendEntries returned
      | appendEntriesResponse sender reply returned =>
          exact probing.handleAppendEntriesResponse measured.2
            (fun role bound success reported given =>
              trace.believable member enabled measured.1 role bound success given) returned

/-- The probes stay within the log in every run of measured steps. -/
theorem Run.probing (distinct : peers.Nodup) (run : Run peers history config)
    (measured : Meets Measured history) : forall id, Probing (config.nodes id) := by
  induction run with
  | start begins =>
      cases begins
      exact fun id => probing_of_not_leader (by rintro ⟨⟩)
  | @next history config after event actions run stepped inductionHypothesis =>
      have earlier := measured.earlier
      rcases Run.commitTrace distinct run (fun transition listed =>
        (earlier transition listed).1) with
        ⟨ledger, trace⟩
      rcases Configuration.step_eq_some.mp stepped with ⟨member, enabled, node, response, rfl⟩
      have acting : Probing node := trace.probing_respond member enabled measured.last
        (inductionHypothesis earlier _) response
      exact Configuration.forall_install_nodes (fun _ node => Probing node) acting
        fun other _ => inductionHypothesis earlier other

/-- What the tables of a leader say is true: a match is within its log and held
by the follower, as long as that is in the leader's term, and a probe is an
index of the log or the next one. -/
def TablesSound (peers : List Nat) (config : Configuration) : Prop :=
  forall leader follower reported next, leader ∈ peers ->
    (config.nodes leader).state.role = .leader ->
    (follower, reported) ∈ (config.nodes leader).state.matchIndex ->
    (follower, next) ∈ (config.nodes leader).state.nextIndex ->
    reported ≤ (config.nodes leader).state.log.lastIndex ∧
    1 ≤ next ∧ next ≤ (config.nodes leader).state.log.lastIndex + 1 ∧
    ((config.nodes follower).state.currentTerm = (config.nodes leader).state.currentTerm ->
      forall position, position ≤ reported ->
        (config.nodes follower).state.log.get position =
          (config.nodes leader).state.log.get position)

/-- **Sound bookkeeping.**  After every run of measured steps the tables of all
leaders are sound. -/
theorem tables_sound (distinct : peers.Nodup) (run : Run peers history config)
    (measured : Meets Measured history) : TablesSound peers config := by
  intro leader follower reported next leaderMember role believed probed
  rcases run.commitTrace distinct (fun transition listed => (measured transition listed).1) with
    ⟨ledger, trace⟩
  have represents := trace.simulates.nodes leader leaderMember
  rcases (trace.commits.nodes leader leaderMember).backed role with ⟨keys, pairs⟩
  rcases pairs _ believed with ⟨inside, held⟩
  have length : (config.nodes leader).state.log.lastIndex = (ledger.log leader).length := by
    rw [RaftLog.lastIndex_eq_length_body, represents.log_eq, RaftLog.body_mk]
  have followerMember : follower ∈ peers := by
    have listed : follower ∈ (config.nodes leader).state.otherPeers := by
      rw [← keys]
      exact List.mem_map_of_mem believed
    rw [RaftState.otherPeers, represents.peers_eq] at listed
    exact List.mem_of_mem_filter listed
  refine ⟨by rw [length]; exact inside, represents.next_pos _ probed,
    run.probing distinct measured leader role _ probed, ?_⟩
  intro sameTerm
  have copies := trace.simulates.nodes follower followerMember
  apply copies.get_eq_of_take represents
  rcases held with zero | agreed
  · change reported = 0 at zero
    rw [zero]
    rfl
  · have terms : ledger.term follower = ledger.term leader := by
      rw [← copies.term_eq, ← represents.term_eq, sameTerm]
    have nobody : Carried ledger.reign (ledger.term leader) (ledger.term follower + 1)
        ((ledger.log leader).take reported) := by
      intro term r above below found
      omega
    exact take_eq_of_isPrefix inside (trace.sound.agreed_held agreed nobody)

set_option maxRecDepth 100000 in
/-- In the round, which is measured, the leader rightly believes that node 2
holds its first entry. -/
theorem tables_sound_round :
    Exists fun history => Exists fun final => Run [1, 2, 3] history final ∧
      Meets Measured history ∧ (final.nodes 1).state.role = .leader ∧
      (2, 1) ∈ (final.nodes 1).state.matchIndex ∧ TablesSound [1, 2, 3] final := by
  have checked : (execute [1, 2, 3] replicationRound).any (fun result =>
      decide (Meets Measured result.1) &&
      decide ((result.2.nodes 1).state.role = .leader ∧
        (2, 1) ∈ (result.2.nodes 1).state.matchIndex)) = true := by decide +kernel
  rcases exists_run checked with ⟨history, final, run, holds⟩
  rcases Bool.and_eq_true_iff.mp holds with ⟨measured, believed⟩
  rcases of_decide_eq_true believed with ⟨role, pair⟩
  exact ⟨history, final, run, of_decide_eq_true measured, role, pair,
    tables_sound (by decide) run (of_decide_eq_true measured)⟩

set_option maxRecDepth 100000 in
/-- A leader with an empty log believes that node 1 holds its first entry. -/
theorem tables_unsound :
    ¬ forall history final, Run [1, 2, 3] history final -> TablesSound [1, 2, 3] final := by
  intro sound
  have checked : (execute [1, 2, 3] overestimate).any (fun result =>
      decide ((result.2.nodes 2).state.role = .leader ∧
        (1, 1) ∈ (result.2.nodes 2).state.matchIndex ∧
        (1, 2) ∈ (result.2.nodes 2).state.nextIndex ∧
        (result.2.nodes 2).state.log.lastIndex = 0)) = true := by decide +kernel
  rcases exists_run checked with ⟨history, final, run, holds⟩
  rcases of_decide_eq_true holds with ⟨role, believed, probed, empty⟩
  have bound := (sound history final run 2 1 1 2 (by decide) role believed probed).1
  change (final.nodes 2).state.log.lastIndex = 0 at empty
  omega

end Runs
end Cluster
end RaftStore
