import RaftStore.Cluster.Agreement
import RaftStore.Raft.Repetition

namespace RaftStore
namespace Cluster

open Raft Consensus Systems RaftNode

/-!
# Leaders that do not wait

A leader commits what it may commit at the moment it may.  Whenever its tables change,
the commit rule runs in the same call, and no entry of its own term is in its log when it
is elected.
-/

/-- No entry may be committed by the leader and is not. -/
def Prompt (node : RaftNode) : Prop :=
  node.state.role = .leader -> forall index, ¬ node.Committable index

/-- What a call does as far as the leadership of the node goes. -/
inductive Leading (node after : RaftNode) : Prop
  | follows (role : after.state.role ≠ .leader)
  | stays (votedFor : Option Nat) (nextIndex : List (Nat × Nat))
      (state : after.state = { node.state with votedFor := votedFor, nextIndex := nextIndex })
  | wins (candidate : RaftNode) (equal : after = candidate.winElection.1)
      (log : candidate.state.log = node.state.log)
      (later : node.state.currentTerm < candidate.state.currentTerm ∨
        node.state.role = .candidate ∧ node.state.currentTerm = candidate.state.currentTerm)
  | commits (recorded : RaftNode) (equal : after = recorded.maybeAdvanceCommitIndex.1)

section Calls

variable {node after : RaftNode} {actions : List Action}

/-! ## Single calls -/

theorem tick_leading (ticked : node.tick = .ok (after, actions)) : Leading node after := by
  rcases tick_cases ticked with ⟨_, rfl, _⟩ | ⟨_, _, rfl, _⟩ | ⟨_, _, started⟩
  · exact .stays _ _ rfl
  · exact .stays _ _ rfl
  · rcases startElection_eq_ok.mp started with ⟨_, result⟩
    split at result
    · cases result
      exact .wins _ rfl rfl (Or.inl (Nat.lt_succ_self _))
    · cases result
      exact .follows (by rintro ⟨⟩)

theorem handleRequestVote_leading (request : RequestVoteRequest) :
    Leading node (node.handleRequestVote request).1 := by
  have raised : (node.raiseTerm request.term).state.role ≠ .leader ∨
      node.raiseTerm request.term = node :=
    (Classical.em _).symm.imp_right raiseTerm_of_leads
  rcases node.handleRequestVote_cases request with ⟨_, equal⟩ | ⟨_, _, _, equal⟩ | ⟨_, _, equal⟩ <;>
    rw [equal]
  · exact .stays _ _ rfl
  · rcases raised with follows | same
    · exact .follows follows
    · rw [same]
      exact .stays _ _ rfl
  · rcases raised with follows | same
    · exact .follows follows
    · rw [same]
      exact .stays _ _ rfl

theorem handleRequestVoteResponse_leading (sender : Nat) (response : RequestVoteResponse) :
    Leading node (node.handleRequestVoteResponse sender response).1 := by
  rcases node.handleRequestVoteResponse_cases sender response with
    equal | ⟨_, _, equal⟩ | ⟨stands, _, equal⟩ <;> rw [equal]
  · exact .stays _ _ rfl
  · exact .follows (by simp)
  · have counted := node.countVote_state sender response
    split
    · exact .wins _ rfl (by rw [counted]) (Or.inr ⟨stands, by rw [counted]⟩)
    · exact .stays _ _ counted

theorem handleAppendEntries_leading {request : AppendEntriesRequest}
    (handled : node.handleAppendEntries request = .ok (after, actions)) : Leading node after := by
  rcases handleAppendEntries_cases handled with
    ⟨_, rfl, _⟩ | ⟨_, _, rfl, _⟩ | ⟨_, _, inserted, ok, rfl, _⟩
  · exact .stays _ _ rfl
  · exact .follows (by simp)
  · rcases insertEntries_shape ok with ⟨_, _, rfl⟩
    rcases followCommit_shape _ request.leaderCommit with ⟨_, _, _, _, shape⟩
    rw [shape]
    exact .follows (by simp [withCommit])

theorem handleAppendEntriesResponse_leading {sender : Nat} {response : AppendEntriesResponse}
    (handled : node.handleAppendEntriesResponse sender response = .ok (after, actions)) :
    Leading node after := by
  rcases handleAppendEntriesResponse_cases handled with
    ⟨_, rfl, _⟩ | ⟨_, _, rfl, _⟩ | ⟨_, _, _, recorded, _, equal⟩ | ⟨_, _, _, ok, _⟩
  · exact .stays _ _ rfl
  · exact .follows (by simp)
  · exact .commits recorded (congrArg Prod.fst equal)
  · rcases recordRejection_eq_ok ok with ⟨nextIndex, rfl, _⟩
    exact .stays _ nextIndex rfl

theorem propose_leading {command : LogCommand} {emitted : Option (List Action)}
    (proposed : node.propose command = .ok (after, emitted)) : Leading node after := by
  rcases propose_cases proposed with ⟨_, rfl, _⟩ | ⟨_, _, rfl, _⟩
  · exact .stays _ _ rfl
  · exact .commits _ rfl

theorem respond_leading {peers : List Nat} {config : Configuration} {event : Event}
    (responded : config.respond peers event = .ok (after, actions)) :
    Leading (config.nodes event.actor) after := by
  cases event with
  | tick id => exact tick_leading responded
  | propose id command =>
      rcases Outcome.map_eq_ok.mp responded with ⟨⟨proposed, emitted⟩, ok, equal⟩
      cases equal
      exact propose_leading ok
  | restart id =>
      cases responded
      apply Leading.follows
      rw [(Configuration.awakened_restarted peers id (config.nodes id)).role]
      rintro ⟨⟩
  | deliver packet =>
      rcases packet with ⟨recipient, message⟩
      cases dispatch_handled responded with
      | requestVote sender request => exact handleRequestVote_leading request
      | requestVoteResponse sender vote => exact handleRequestVoteResponse_leading sender vote
      | appendEntries sender request returned => exact handleAppendEntries_leading returned
      | appendEntriesResponse sender reply returned =>
          exact handleAppendEntriesResponse_leading returned

/-! ## The commit rule -/

/-- After the commit rule nothing is left to commit. -/
theorem prompt_maybeAdvanceCommitIndex (node : RaftNode) :
    Prompt node.maybeAdvanceCommitIndex.1 := by
  intro _ index committable
  have settled : node.maybeAdvanceCommitIndex.1.scannedCommit =
      node.maybeAdvanceCommitIndex.1.state.commitIndex := by
    have commit := node.maybeAdvanceCommitIndex_commitIndex
    rcases node.maybeAdvanceCommitIndex_shape with ⟨_, _, _, _, shape⟩
    rw [shape] at commit ⊢
    exact @scannedCommit_again node _ rfl rfl rfl rfl commit
  rcases node.maybeAdvanceCommitIndex.1.isGreatestOr_scannedCommit with ⟨member, _⟩ | ⟨none, _⟩
  · exact Nat.lt_irrefl _ (settled ▸ (member : Committable _ _).fresh)
  · exact Set.eq_empty_iff_forall_notMem.mp none index committable

/-- What is in the log of a node is of an earlier term. -/
def Older (node : RaftNode) : Prop :=
  forall entry, entry ∈ node.state.log.body -> entry.term < node.state.currentTerm

/-- A new leader has nothing of its own term in its log. -/
theorem prompt_winElection {candidate : RaftNode} (older : Older candidate) :
    Prompt candidate.winElection.1 := by
  intro _ index committable
  rcases committable with ⟨fresh, inside, current, _⟩
  change candidate.state.log.termAt index = candidate.state.currentTerm at current
  cases index with
  | zero => exact Nat.not_lt_zero _ fresh
  | succ index =>
      have bound : index < candidate.state.log.body.length := by
        rw [← RaftLog.lastIndex_eq_length_body]
        exact inside
      rw [RaftLog.termAt_succ, List.getElem?_eq_getElem bound] at current
      exact Nat.ne_of_lt (older _ (List.getElem_mem bound)) current

/-- Being prompt is a matter of the log, the term, the commit index and what is known
of the other nodes. -/
theorem Prompt.of_same (prompt : Prompt node) {votedFor : Option Nat}
    {nextIndex : List (Nat × Nat)}
    (state : after.state = { node.state with votedFor := votedFor, nextIndex := nextIndex }) :
    Prompt after := by
  intro leads index committable
  rcases committable with ⟨fresh, inside, current, replicated⟩
  rw [replicationCount] at replicated
  rw [state] at leads fresh inside current replicated
  exact prompt leads index ⟨fresh, inside, current, replicated⟩

/-- A prompt node stays prompt, if what it has when it is elected is of earlier terms. -/
theorem Leading.prompt (leading : Leading node after) (prompt : Prompt node)
    (bound : forall entry, entry ∈ node.state.log.body -> entry.term ≤ node.state.currentTerm)
    (older : node.state.role = .candidate -> Older node) : Prompt after := by
  cases leading with
  | follows role => exact fun leads => absurd leads role
  | stays votedFor nextIndex state => exact prompt.of_same state
  | wins candidate equal log later =>
      rw [equal]
      apply prompt_winElection
      intro entry listed
      rw [log] at listed
      rcases later with raised | ⟨stands, same⟩
      · exact Nat.lt_of_le_of_lt (bound entry listed) raised
      · rw [← same]
        exact older stands entry listed
  | commits recorded equal =>
      rw [equal]
      exact prompt_maybeAdvanceCommitIndex recorded

end Calls

section Runs

variable {peers : List Nat} {history : List Transition} {config : Configuration}

/-- Leaders are prompt. -/
theorem Run.prompt (distinct : peers.Nodup) (run : Run peers history config) :
    forall id, Prompt (config.nodes id) := by
  induction run with
  | start begins =>
      cases begins
      rintro id ⟨⟩
  | @next history config after event actions run stepped inductionHypothesis =>
      rcases Run.traces distinct run with ⟨ledger, traces⟩
      rcases Configuration.step_eq_some.mp stepped with ⟨member, _, node, responded, rfl⟩
      have represents := traces.simulates.nodes event.actor member
      have acting : Prompt node := by
        apply (respond_leading responded).prompt (inductionHypothesis _)
        · intro entry listed
          rw [represents.log_eq] at listed
          rw [represents.term_eq]
          exact traces.sound.log_bound _ entry listed
        · intro stands entry listed
          rw [represents.log_eq] at listed
          rw [represents.term_eq]
          exact traces.sound.stand_old (represents.stands stands).1 entry listed
      exact Configuration.forall_install_nodes (fun _ node => Prompt node) acting
        fun other _ => inductionHypothesis other

end Runs
end Cluster
end RaftStore
