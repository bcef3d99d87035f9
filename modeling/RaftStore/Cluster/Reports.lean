import RaftStore.Cluster.Run
import RaftStore.Raft.Effects

namespace RaftStore
namespace Cluster

open Raft Systems RaftNode

/-!
# What leaders record of their followers

While a node stays leader of one term, its table of match indices changes only
when it takes in a success.  The reported index is written over the old one,
whether it is newer or not: replies do not say which request they answer, and
those of earlier terms are taken in as well.  So a value of the table goes back
exactly when a leader takes in a success that reports less than what is stored
for its sender.
-/

/-- The match index that a node stores for a follower. -/
def matchOf (node : RaftNode) (follower : Nat) : Option Nat :=
  (node.state.matchIndex.find? (fun pair => pair.1 = follower)).map Prod.snd

/-- A leader takes in a success that reports less than it has stored for the
sender. -/
def Regresses (node : RaftNode) (sender : Nat) (response : AppendEntriesResponse) : Prop :=
  node.state.role = .leader ∧ response.term ≤ node.state.currentTerm ∧ response.success = true ∧
    Exists fun reported => reported ∈ response.matchIndex ∧
      Exists fun stored => stored ∈ matchOf node sender ∧ reported < stored

instance (node : RaftNode) (sender : Nat) (response : AppendEntriesResponse) :
    Decidable (Regresses node sender response) :=
  inferInstanceAs (Decidable (_ ∧ _))

/-- No step lets a leader take in such a success. -/
def Orderly (config : Configuration) : Event -> Prop
  | .deliver ⟨recipient, .appendEntriesResponse sender response⟩ =>
      ¬ Regresses (config.nodes recipient) sender response
  | _ => True

instance (config : Configuration) (event : Event) : Decidable (Orderly config event) :=
  match event with
  | .deliver ⟨_, .appendEntriesResponse _ _⟩ => inferInstanceAs (Decidable (¬ _))
  | .deliver ⟨_, .appendEntries _ _⟩ => inferInstanceAs (Decidable True)
  | .deliver ⟨_, .requestVote _ _⟩ => inferInstanceAs (Decidable True)
  | .deliver ⟨_, .requestVoteResponse _ _⟩ => inferInstanceAs (Decidable True)
  | .tick _ => inferInstanceAs (Decidable True)
  | .propose _ _ => inferInstanceAs (Decidable True)
  | .restart _ => inferInstanceAs (Decidable True)

/-- A node that stays leader of one term through a step keeps for each follower at
least the match index it had. -/
def KeepsMatches (transition : Transition) : Prop :=
  forall leader, (transition.source.nodes leader).state.role = .leader ->
    (transition.target.nodes leader).state.role = .leader ->
    (transition.target.nodes leader).state.currentTerm =
      (transition.source.nodes leader).state.currentTerm ->
    forall follower stored, matchOf (transition.source.nodes leader) follower = some stored ->
      Exists fun kept => matchOf (transition.target.nodes leader) follower = some kept ∧
        stored ≤ kept

/-! ## One step -/

section Step

variable {node after : RaftNode} {actions : List Action}

/-- The table of a node that stays leader is as it was, or one reported index has
been written into it. -/
def Records (node after : RaftNode) (message : NetworkMessage) : Prop :=
  Exists fun sender => Exists fun response => Exists fun reported =>
    message = .appendEntriesResponse sender response ∧
    response.term ≤ node.state.currentTerm ∧ response.success = true ∧
    response.matchIndex = some reported ∧
    updateFirst sender (fun _ => .ok reported) node.state.matchIndex = .ok after.state.matchIndex

theorem dispatch_table {message : NetworkMessage} (leads : node.state.role = .leader)
    (stays : after.state.role = .leader)
    (dispatched : dispatch node message = .ok (after, actions)) :
    after.state.matchIndex = node.state.matchIndex ∨ Records node after message := by
  cases dispatch_handled dispatched with
  | requestVote sender request =>
      left
      have raised : (node.raiseTerm request.term).state.role = .leader ->
          (node.raiseTerm request.term).state.matchIndex = node.state.matchIndex := by
        unfold raiseTerm
        split
        · simp
        · exact fun _ => rfl
      rcases node.handleRequestVote_cases request with ⟨_, equal⟩ | ⟨_, _, _, equal⟩ | ⟨_, _, equal⟩
      · rw [equal]
      · rw [equal] at stays ⊢
        exact raised stays
      · rw [equal] at stays ⊢
        exact raised stays
  | requestVoteResponse sender response =>
      left
      rcases node.handleRequestVoteResponse_cases sender response with
        equal | ⟨stands, _, _⟩ | ⟨stands, _, _⟩
      · rw [equal]
      · rw [leads] at stands
        cases stands
      · rw [leads] at stands
        cases stands
  | appendEntries sender request returned =>
      left
      rcases handleAppendEntries_cases returned with
        ⟨_, rfl, _⟩ | ⟨_, _, rfl, _⟩ | ⟨_, _, inserted, ok, rfl, _⟩
      · rfl
      · simp at stays
      · rcases inserted.followCommit_shape request.leaderCommit with ⟨_, _, _, _, shape⟩
        rw [shape] at stays
        change inserted.state.role = .leader at stays
        rw [(insertEntries_frame ok).role] at stays
        simp at stays
  | appendEntriesResponse sender response returned =>
      rcases handleAppendEntriesResponse_cases returned with
        ⟨notLeader, _⟩ | ⟨_, _, rfl, _⟩ | ⟨_, bound, success, recorded, ok, equal⟩ | ⟨_, _, _, ok, _⟩
      · exact absurd leads notLeader
      · simp at stays
      · rcases recorded.maybeAdvanceCommitIndex_shape with ⟨_, _, _, _, shape⟩
        rw [shape] at equal
        cases equal
        rcases recordMatch_eq_ok ok with ⟨matchIndex, nextIndex, rfl, ⟨_, same, _⟩ | found⟩
        · exact Or.inl same
        · rcases found with ⟨reported, present, updated, _⟩
          exact Or.inr ⟨sender, response, reported, rfl, bound, success, present, updated⟩
      · left
        rcases recordRejection_eq_ok ok with ⟨nextIndex, rfl, _⟩
        rfl

/-- A node that stays leader through an event has its table as it was, or has
recorded what was delivered to it. -/
theorem respond_table {peers : List Nat} {config : Configuration} {event : Event}
    (leads : (config.nodes event.actor).state.role = .leader) (stays : after.state.role = .leader)
    (response : config.respond peers event = .ok (after, actions)) :
    after.state.matchIndex = (config.nodes event.actor).state.matchIndex ∨
      Exists fun packet => event = .deliver packet ∧
        Records (config.nodes packet.recipient) after packet.message := by
  cases event with
  | tick id =>
      left
      rcases tick_cases response with ⟨_, rfl, _⟩ | ⟨_, _, rfl, _⟩ | ⟨notLeader, _⟩
      · rfl
      · rfl
      · exact absurd leads notLeader
  | propose id command =>
      left
      rcases Outcome.map_eq_ok.mp response with ⟨⟨proposed, emitted⟩, ok, equal⟩
      cases equal
      rcases propose_cases ok with ⟨_, rfl, _⟩ | ⟨_, _, rfl, _⟩
      · rfl
      · rcases ((config.nodes id).withEntry command).maybeAdvanceCommitIndex_shape with
          ⟨_, _, _, _, shape⟩
        rw [shape]
        rfl
  | deliver packet =>
      rcases dispatch_table leads stays response with same | records
      · exact Or.inl same
      · exact Or.inr ⟨packet, rfl, records⟩
  | restart id =>
      cases response
      rw [(Configuration.awakened_restarted peers id (config.nodes id)).role] at stays
      cases stays

/-- Looking up a follower after one entry of the table has been replaced. -/
theorem find_updateFirst {key reported : Nat} {pairs result : List (Nat × Nat)}
    (updated : updateFirst key (fun _ => .ok reported) pairs = .ok result) (follower : Nat) :
    (result.find? (fun pair => pair.1 = follower)).map Prod.snd =
      if follower = key then
        (pairs.find? (fun pair => pair.1 = follower)).map (fun _ => reported)
      else (pairs.find? (fun pair => pair.1 = follower)).map Prod.snd := by
  induction pairs generalizing result with
  | nil =>
      cases updated
      simp
  | cons head rest inductionHypothesis =>
      rcases head with ⟨id, value⟩
      unfold updateFirst at updated
      by_cases found : id = key
      · rw [if_pos found] at updated
        cases updated
        by_cases here : id = follower
        · simp [← found, here]
        · simp [here, ← found, Ne.symm here]
      · rw [if_neg found] at updated
        rcases Outcome.map_eq_ok.mp updated with ⟨newRest, computed, rfl⟩
        by_cases here : id = follower
        · have other : follower ≠ key := fun same => found (here.trans same)
          simp [here, other]
        · simpa [here] using inductionHypothesis computed

/-- What is stored for a follower after a recorded success. -/
theorem matchOf_of_records {sender reported : Nat}
    (updated : updateFirst sender (fun _ => .ok reported) node.state.matchIndex =
      .ok after.state.matchIndex) (follower : Nat) :
    matchOf after follower =
      if follower = sender then (matchOf node follower).map (fun _ => reported)
      else matchOf node follower := by
  unfold matchOf
  rw [find_updateFirst updated, Option.map_map]
  rfl

/-- The leader after it has taken in a success. -/
theorem dispatch_success {sender reported : Nat} {response : AppendEntriesResponse}
    (leads : node.state.role = .leader) (bound : response.term ≤ node.state.currentTerm)
    (success : response.success = true) (report : response.matchIndex = some reported)
    (handled : node.handleAppendEntriesResponse sender response = .ok (after, actions)) :
    after.state.role = .leader ∧ after.state.currentTerm = node.state.currentTerm ∧
      updateFirst sender (fun _ => .ok reported) node.state.matchIndex =
        .ok after.state.matchIndex := by
  rcases handleAppendEntriesResponse_cases handled with
    ⟨notLeader, _⟩ | ⟨_, higher, _⟩ | ⟨_, _, _, recorded, ok, equal⟩ | ⟨_, _, failure, _⟩
  · exact absurd leads notLeader
  · omega
  · rcases recorded.maybeAdvanceCommitIndex_shape with ⟨_, _, _, _, shape⟩
    rw [shape] at equal
    cases equal
    rcases recordMatch_eq_ok ok with ⟨matchIndex, nextIndex, rfl, ⟨none, _⟩ | found⟩
    · rw [report] at none
      cases none
    · rcases found with ⟨other, present, updated, _⟩
      rw [report] at present
      cases present
      exact ⟨leads, rfl, updated⟩
  · rw [success] at failure
    cases failure

/-- One step keeps the tables exactly if it is orderly. -/
theorem keepsMatches_iff {peers : List Nat} {config next : Configuration} {event : Event}
    (stepped : config.step peers event = some (next, actions)) :
    KeepsMatches ⟨config, event, actions, next⟩ <-> Orderly config event := by
  rcases Configuration.step_eq_some.mp stepped with ⟨_, _, after, response, rfl⟩
  constructor
  · intro keeps
    cases event with
    | deliver packet =>
        rcases packet with ⟨recipient, message⟩
        cases message with
        | appendEntriesResponse sender reply =>
            rintro ⟨leads, bound, success, reported, report, stored, lookup, below⟩
            rcases dispatch_success leads bound success report response with ⟨role, term, updated⟩
            have self : (config.install recipient after actions).nodes recipient = after :=
              config.install_nodes_self recipient after actions
            rcases keeps recipient leads (by simpa [Event.actor, self] using role)
              (by simpa [Event.actor, self] using term) sender stored lookup with
              ⟨kept, found, above⟩
            change matchOf ((config.install recipient after actions).nodes recipient) sender =
              some kept at found
            rw [self, matchOf_of_records updated, if_pos rfl, lookup] at found
            have same : reported = kept := Option.some.inj found
            omega
        | _ => trivial
    | _ => trivial
  · intro orderly leader leads stays _ follower stored lookup
    by_cases acting : leader = event.actor
    · subst acting
      have self : (config.install event.actor after actions).nodes event.actor = after :=
        config.install_nodes_self event.actor after actions
      change ((config.install event.actor after actions).nodes event.actor).state.role =
        .leader at stays
      change Exists fun kept =>
        matchOf ((config.install event.actor after actions).nodes event.actor) follower =
          some kept ∧ stored ≤ kept
      rw [self] at stays ⊢
      rcases respond_table leads stays response with same | ⟨packet, rfl, records⟩
      · exact ⟨stored, by rw [matchOf, same]; exact lookup, Nat.le_refl _⟩
      · rcases packet with ⟨recipient, message⟩
        rcases records with ⟨sender, reply, reported, rfl, bound, success, report, updated⟩
        rw [matchOf_of_records updated]
        change matchOf (config.nodes recipient) follower = some stored at lookup
        split
        · next same =>
            subst same
            refine ⟨reported, by rw [lookup]; rfl, ?_⟩
            by_contra less
            exact orderly ⟨leads, bound, success, reported, report, stored, lookup,
              Nat.lt_of_not_le less⟩
        · exact ⟨stored, lookup, Nat.le_refl _⟩
    · refine ⟨stored, ?_, Nat.le_refl _⟩
      change matchOf ((config.install event.actor after actions).nodes leader) follower = some stored
      rw [Configuration.install_nodes_of_ne _ after actions acting]
      exact lookup

end Step

/-! ## Whole runs -/

/-- Node 1 leads, and node 2 has answered two replication requests.  The answers are
on the network. -/
def twoReplies : List Event :=
  ticks 1 52 ++
  [.deliver ⟨2, .requestVote 1 ⟨1, 1, 0, 0⟩⟩,
   .deliver ⟨1, .requestVoteResponse 2 ⟨1, true⟩⟩,
   .propose 1 (.put "k" "a"),
   .propose 1 (.put "k" "b"),
   .deliver ⟨2, .appendEntries 1 ⟨1, 1, 0, 0, [⟨1, .put "k" "a"⟩], 0⟩⟩,
   .deliver ⟨2, .appendEntries 1 ⟨1, 1, 0, 0, [⟨1, .put "k" "a"⟩, ⟨1, .put "k" "b"⟩], 0⟩⟩]

def firstReply : Event := .deliver ⟨1, .appendEntriesResponse 2 ⟨1, true, some 1⟩⟩

def secondReply : Event := .deliver ⟨1, .appendEntriesResponse 2 ⟨1, true, some 2⟩⟩

section Runs

variable {peers : List Nat} {history : List Transition} {final : Configuration}

/-- **Replication progress.**  Over a run no leader's match index goes back while its
term lasts, exactly if no leader takes in a success that reports less than it has
stored for the sender. -/
theorem matches_kept_iff (run : Run peers history final) :
    (forall transition, transition ∈ history -> KeepsMatches transition) <->
      Meets Orderly history := by
  refine forall_congr' fun transition => ?_
  refine imp_congr_right fun listed => ?_
  rcases List.append_of_mem listed with ⟨newer, older, rfl⟩
  exact keepsMatches_iff (run.split).2

set_option maxRecDepth 100000 in
/-- As long as the replies come in order, the tables are kept. -/
theorem matches_kept_in_order :
    Exists fun history => Exists fun final => Run [1, 2, 3] history final ∧
      (final.nodes 1).state.matchIndex = [(2, 2), (3, 0)] ∧
      forall transition, transition ∈ history -> KeepsMatches transition := by
  have checked : (execute [1, 2, 3] (twoReplies ++ [firstReply, secondReply])).any (fun result =>
      decide (Meets Orderly result.1) &&
      decide ((result.2.nodes 1).state.matchIndex = [(2, 2), (3, 0)])) = true := by decide +kernel
  rcases exists_run checked with ⟨history, final, run, holds⟩
  rcases Bool.and_eq_true_iff.mp holds with ⟨orderly, table⟩
  exact ⟨history, final, run, of_decide_eq_true table,
    (matches_kept_iff run).mpr (of_decide_eq_true orderly)⟩

set_option maxRecDepth 100000 in
/-- If the first reply comes last, the match index of node 2 falls from 2 to 1. -/
theorem matches_fall :
    ¬ forall history final, Run [1, 2, 3] history final ->
      forall transition, transition ∈ history -> KeepsMatches transition := by
  intro kept
  have checked : (execute [1, 2, 3] (twoReplies ++ [secondReply, firstReply])).any (fun result =>
      result.1.head?.any (fun transition => decide (
        (transition.source.nodes 1).state.role = .leader ∧
        (transition.target.nodes 1).state.role = .leader ∧
        (transition.target.nodes 1).state.currentTerm =
          (transition.source.nodes 1).state.currentTerm ∧
        matchOf (transition.source.nodes 1) 2 = some 2 ∧
        matchOf (transition.target.nodes 1) 2 = some 1))) = true := by decide +kernel
  rcases exists_run checked with ⟨history, final, run, holds⟩
  rcases (Option.any_eq_true _ _).mp holds with ⟨transition, newest, falls⟩
  rcases of_decide_eq_true falls with ⟨leads, stays, term, before, after⟩
  have listed : transition ∈ history := List.mem_of_mem_head? newest
  rcases kept history final run transition listed 1 leads stays term 2 2 before with
    ⟨value, found, bound⟩
  rw [after] at found
  cases found
  omega

end Runs
end Cluster
end RaftStore
