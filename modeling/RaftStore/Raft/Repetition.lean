import RaftStore.Raft.Effects
import RaftStore.Raft.Specification

namespace RaftStore
namespace Raft
namespace RaftNode

/-!
# Handling a message twice

Each handler, given the message it has just handled, returns again, applies
nothing, and leaves the node as it is up to its timers, its saves and the probes
of a leader.  For a replication request this needs that the request does not
insert entries beyond the end of the log, since the handler would accept such a
request once and could refuse it the second time.
-/

/-! ## What is compared -/

/-- The node looks the same up to timers, saves and probes. -/
structure SameView (node other : RaftNode) : Prop where
  currentTerm : other.state.currentTerm = node.state.currentTerm
  votedFor : other.state.votedFor = node.state.votedFor
  log : other.state.log = node.state.log
  role : other.state.role = node.state.role
  leaderId : other.state.leaderId = node.state.leaderId
  commitIndex : other.state.commitIndex = node.state.commitIndex
  lastApplied : other.state.lastApplied = node.state.lastApplied
  votesReceived : other.votesReceived = node.votesReceived
  matchIndex : other.state.matchIndex = node.state.matchIndex

theorem SameView.refl (node : RaftNode) : SameView node node :=
  ⟨rfl, rfl, rfl, rfl, rfl, rfl, rfl, rfl, rfl⟩

/-- Nothing is handed to the state machine. -/
def AppliesNothing (actions : List Action) : Prop :=
  forall index command, Action.applyEntry index command ∉ actions

/-- The handler returns on the node, applies nothing and changes nothing that is
compared. -/
def Settles (node : RaftNode) (outcome : Outcome (RaftNode × List Action)) : Prop :=
  Exists fun again => Exists fun actions =>
    outcome = .ok (again, actions) ∧ SameView node again ∧ AppliesNothing actions

theorem settles_same (node : RaftNode) : Settles node (.ok (node, [])) :=
  ⟨node, [], rfl, .refl node, fun _ _ => List.not_mem_nil⟩

/-! ## Votes -/

section Votes

theorem raiseTerm_of_same {node : RaftNode} {term : Nat} (same : node.state.currentTerm = term) :
    node.raiseTerm term = node := by
  rw [raiseTerm, if_neg (by omega)]

/-- A voter that has given its vote gives it again. -/
theorem settles_of_granted {node : RaftNode} {request : RequestVoteRequest}
    (current : node.state.currentTerm = request.term)
    (voted : node.state.votedFor = some request.candidateId)
    (upToDate : candidateUpToDate node.state.log request = true) :
    Settles node (.ok (node.handleRequestVote request)) := by
  have raised : node.raiseTerm request.term = node := raiseTerm_of_same current
  have free : canVote node.state.votedFor request.candidateId = true := by
    rw [voted]
    simp [canVote]
  rcases node.handleRequestVote_cases request with
    ⟨stale, _⟩ | ⟨_, _, _, equal⟩ | ⟨_, refused, _⟩
  · omega
  · rw [raised] at equal
    rw [equal]
    exact ⟨_, _, rfl, ⟨rfl, voted.symm, rfl, rfl, rfl, rfl, rfl, rfl, rfl⟩,
      by simp [AppliesNothing]⟩
  · rw [raised, free, upToDate] at refused
    cases refused

/-- A voter that has refused its vote refuses it again. -/
theorem settles_of_refused {node : RaftNode} {request : RequestVoteRequest}
    (current : node.state.currentTerm = request.term)
    (refused : (canVote node.state.votedFor request.candidateId &&
      candidateUpToDate node.state.log request) = false) :
    Settles node (.ok (node.handleRequestVote request)) := by
  have raised : node.raiseTerm request.term = node := raiseTerm_of_same current
  rcases node.handleRequestVote_cases request with
    ⟨stale, _⟩ | ⟨_, free, upToDate, _⟩ | ⟨_, _, equal⟩
  · omega
  · rw [raised] at free
    rw [free, upToDate] at refused
    cases refused
  · rw [equal, raised]
    exact ⟨_, _, rfl, .refl node, by simp [AppliesNothing]⟩

theorem handleRequestVote_settles (node : RaftNode) (request : RequestVoteRequest) :
    Settles (node.handleRequestVote request).1
      (.ok ((node.handleRequestVote request).1.handleRequestVote request)) := by
  rcases node.handleRequestVote_cases request with
    ⟨stale, equal⟩ | ⟨current, _, upToDate, equal⟩ | ⟨current, refused, equal⟩
  · rw [equal]
    exact ⟨node, _, by rw [equal], .refl node, by simp [AppliesNothing]⟩
  · rw [equal]
    refine settles_of_granted (raiseTerm_currentTerm current) rfl ?_
    change candidateUpToDate (node.raiseTerm request.term).state.log request = true
    rw [raiseTerm_log]
    exact upToDate
  · rw [equal]
    refine settles_of_refused (raiseTerm_currentTerm current) ?_
    rw [raiseTerm_log]
    exact refused

/-- A node that is no candidate ignores answers to vote requests. -/
theorem settles_of_notCandidate {node : RaftNode} {sender : Nat} {response : RequestVoteResponse}
    (role : node.state.role ≠ .candidate) :
    Settles node (.ok (node.handleRequestVoteResponse sender response)) := by
  rw [handleRequestVoteResponse, if_pos role]
  exact settles_same node

/-- A vote that has been counted stays counted once. -/
theorem countVote_countVote (node : RaftNode) (sender : Nat) (response : RequestVoteResponse) :
    (node.countVote sender response).countVote sender response =
      node.countVote sender response := by
  unfold countVote
  split
  · simp only [Finset.insert_idem]
  · rfl

theorem handleRequestVoteResponse_settles (node : RaftNode) (sender : Nat)
    (response : RequestVoteResponse) :
    Settles (node.handleRequestVoteResponse sender response).1
      (.ok ((node.handleRequestVoteResponse sender response).1.handleRequestVoteResponse
        sender response)) := by
  rcases node.handleRequestVoteResponse_cases sender response with
    equal | ⟨_, _, equal⟩ | ⟨role, same, equal⟩
  · rw [equal, equal]
    exact settles_same node
  · rw [equal]
    exact settles_of_notCandidate (by simp)
  · rw [equal]
    split
    · exact settles_of_notCandidate (by simp [winElection, RaftState.becomeLeader])
    · next few =>
        have state := node.countVote_state sender response
        -- the candidate goes on counting, and the vote is already in the set
        rcases (node.countVote sender response).handleRequestVoteResponse_cases sender response with
          again | ⟨_, higher, _⟩ | ⟨_, _, again⟩
        · rw [again]
          exact settles_same _
        · rw [state] at higher
          omega
        · rw [again, countVote_countVote, if_neg few]
          exact settles_same _

end Votes

/-! ## Replication responses -/

section Responses

/-- Updating a table twice with a function that has settled after the first time. -/
theorem updateFirst_again {key : Nat} {update : Nat -> Outcome Nat} {pairs result : List (Nat × Nat)}
    (updated : updateFirst key update pairs = .ok result)
    (settled : forall value next, update value = .ok next -> update next = .ok next) :
    updateFirst key update result = .ok result := by
  induction pairs generalizing result with
  | nil =>
      cases updated
      rfl
  | cons head rest inductionHypothesis =>
      rcases head with ⟨id, value⟩
      unfold updateFirst at updated
      by_cases found : id = key
      · rw [if_pos found] at updated
        rcases Outcome.map_eq_ok.mp updated with ⟨next, computed, rfl⟩
        rw [updateFirst, if_pos found, settled value next computed]
        rfl
      · rw [if_neg found] at updated
        rcases Outcome.map_eq_ok.mp updated with ⟨newRest, computed, rfl⟩
        rw [updateFirst, if_neg found, inductionHypothesis computed]
        rfl

/-- A report that could be recorded can be recorded again, to no effect. -/
theorem recordMatch_again {node recorded other : RaftNode} {sender : Nat} {matchIdx : Option Nat}
    (ok : node.recordMatch sender matchIdx = .ok recorded)
    (sameMatch : other.state.matchIndex = recorded.state.matchIndex)
    (sameNext : other.state.nextIndex = recorded.state.nextIndex) :
    other.recordMatch sender matchIdx = .ok other := by
  rcases recordMatch_eq_ok ok with ⟨matchIndex, nextIndex, rfl, unchanged | found⟩
  · rw [unchanged.1]
    rfl
  · rcases found with ⟨reported, rfl, matched, moved⟩
    have first : updateFirst sender (fun _ => .ok reported) other.state.matchIndex =
        .ok other.state.matchIndex := by
      rw [sameMatch]
      exact updateFirst_again matched (fun _ _ computed => computed)
    have second : updateFirst sender (fun _ => checkedAdd reported 1) other.state.nextIndex =
        .ok other.state.nextIndex := by
      rw [sameNext]
      exact updateFirst_again moved (fun _ _ computed => computed)
    exact Outcome.bind_eq_ok.mpr ⟨_, first, Outcome.bind_eq_ok.mpr ⟨_, second, rfl⟩⟩

/-- A rejection that could be recorded can be recorded again.  The probe may go
back by one more index. -/
theorem recordRejection_again {node recorded : RaftNode} {sender : Nat} {hint : Option Nat}
    (ok : node.recordRejection sender hint = .ok recorded) :
    Exists fun nextIndex => recorded.recordRejection sender hint =
      .ok { recorded with state := { recorded.state with nextIndex := nextIndex } } := by
  rcases recordRejection_eq_ok ok with ⟨nextIndex, rfl, moved⟩
  have again : Exists fun result => updateFirst sender (backUp hint) nextIndex = .ok result := by
    cases hint with
    | none => exact exists_updateFirst sender (fun _ => ⟨_, rfl⟩) nextIndex
    | some reported => exact ⟨_, updateFirst_again moved (fun _ _ computed => computed)⟩
  rcases again with ⟨result, updated⟩
  exact ⟨result, Outcome.bind_eq_ok.mpr ⟨_, updated, rfl⟩⟩

/-- The commit rule has nothing to do after it has been applied. -/
theorem scannedCommit_again {node other : RaftNode} (log : other.state.log = node.state.log)
    (term : other.state.currentTerm = node.state.currentTerm)
    (peers : other.state.peers = node.state.peers)
    (matches_ : other.state.matchIndex = node.state.matchIndex)
    (commit : other.state.commitIndex = node.scannedCommit) :
    other.scannedCommit = other.state.commitIndex := by
  rcases other.scannedCommit_cases with unmoved | ⟨fresh, inside, current, replicated⟩
  · exact unmoved
  · -- an index that is committable now was committable before
    have greatest := node.isGreatestOr_scannedCommit
    have start : node.state.commitIndex ≤ node.scannedCommit := by
      rcases node.scannedCommit_cases with unmoved | ⟨above, _⟩ <;> omega
    have before : node.Committable other.scannedCommit := by
      refine ⟨by omega, by rw [← log]; exact inside, by rw [← log, ← term]; exact current, ?_⟩
      rw [RaftState.majorityCount, replicationCount, ← peers, ← matches_]
      exact replicated
    rcases greatest with ⟨_, bound⟩ | ⟨none, _⟩
    · have below := bound before
      omega
    · rw [Set.eq_empty_iff_forall_notMem] at none
      exact absurd before (none other.scannedCommit)

theorem maybeAdvanceCommitIndex_again (node : RaftNode) :
    node.maybeAdvanceCommitIndex.1.maybeAdvanceCommitIndex =
      (node.maybeAdvanceCommitIndex.1, []) := by
  have settled : node.maybeAdvanceCommitIndex.1.scannedCommit =
      node.maybeAdvanceCommitIndex.1.state.commitIndex := by
    have commit := node.maybeAdvanceCommitIndex_commitIndex
    rcases node.maybeAdvanceCommitIndex_shape with ⟨_, _, _, _, shape⟩
    rw [shape] at commit ⊢
    exact @scannedCommit_again node _ rfl rfl rfl rfl commit
  rw [maybeAdvanceCommitIndex_eq, if_neg (by omega)]

/-- A node that is no leader ignores answers to replication requests. -/
theorem settles_of_notLeader {node : RaftNode} {sender : Nat} {response : AppendEntriesResponse}
    (role : node.state.role ≠ .leader) :
    Settles node (node.handleAppendEntriesResponse sender response) := by
  rw [handleAppendEntriesResponse, if_pos role]
  exact settles_same node

theorem handleAppendEntriesResponse_settles {node after : RaftNode} {sender : Nat}
    {response : AppendEntriesResponse} {actions : List Action}
    (handled : node.handleAppendEntriesResponse sender response = .ok (after, actions)) :
    Settles after (after.handleAppendEntriesResponse sender response) := by
  rcases handleAppendEntriesResponse_cases handled with
    ⟨role, rfl, _⟩ | ⟨_, _, rfl, _⟩ | ⟨role, bound, success, recorded, ok, equal⟩ |
    ⟨role, bound, failure, ok, _⟩
  · exact settles_of_notLeader role
  · exact settles_of_notLeader (by simp)
  · have reached : after = recorded.maybeAdvanceCommitIndex.1 := (Prod.mk.inj equal).1
    have advanced : after.maybeAdvanceCommitIndex = (after, []) := by
      rw [reached]
      exact recorded.maybeAdvanceCommitIndex_again
    rcases recorded.maybeAdvanceCommitIndex_shape with ⟨lastApplied, commitIndex, _, _, shape⟩
    rw [shape] at reached
    have again : after.recordMatch sender response.matchIndex = .ok after :=
      recordMatch_again ok (by rw [reached]; rfl) (by rw [reached]; rfl)
    rcases recordMatch_eq_ok ok with ⟨matchIndex, nextIndex, recordedEq, _⟩
    have leads : after.state.role = .leader := by
      rw [reached, recordedEq]
      exact role
    have term : after.state.currentTerm = node.state.currentTerm := by
      rw [reached, recordedEq]
      rfl
    rw [handleAppendEntriesResponse, if_neg (not_not.mpr leads), if_neg (by omega),
      if_pos success, again]
    refine ⟨after, [], ?_, .refl after, fun _ _ => List.not_mem_nil⟩
    change Except.ok after.maybeAdvanceCommitIndex = _
    rw [advanced]
  · rcases recordRejection_again ok with ⟨nextIndex, again⟩
    rcases recordRejection_eq_ok ok with ⟨_, rfl, _⟩
    rw [handleAppendEntriesResponse, if_neg (not_not.mpr role), if_neg (by exact Nat.not_lt.mpr bound),
      if_neg (by rw [failure]; decide), again]
    exact ⟨_, [], rfl, ⟨rfl, rfl, rfl, rfl, rfl, rfl, rfl, rfl, rfl⟩, fun _ _ => List.not_mem_nil⟩

end Responses

/-! ## Replication requests -/

section Requests

variable {node : RaftNode} {request : AppendEntriesRequest}

/-- Entries that have been inserted behind a match all match. -/
theorem matchingTerms_resume (entries present : List LogEntry) :
    matchingTerms entries (present.take (matchingTerms entries present) ++
      entries.drop (matchingTerms entries present)) = entries.length := by
  have whole : forall list : List LogEntry, matchingTerms list list = list.length := by
    intro list
    simpa using matchingTerms_append list []
  induction entries generalizing present with
  | nil => rfl
  | cons entry entries inductionHypothesis =>
      cases present with
      | nil => exact whole (entry :: entries)
      | cons first rest =>
          by_cases same : first.term = entry.term
          · simp only [matchingTerms, if_pos same, List.take_succ_cons, List.drop_succ_cons,
              List.cons_append, inductionHypothesis, List.length_cons]
          · have none : matchingTerms (entry :: entries) (first :: rest) = 0 := by
              rw [matchingTerms, if_neg same]
            rw [none]
            exact whole (entry :: entries)

/-- The request inserts nothing, or it inserts behind an index of the log. -/
def Reaches (log : RaftLog) (request : AppendEntriesRequest) : Prop :=
  log.entries ≠ [] ∧ (request.entries = [] ∨ request.prevLogIndex ≤ log.lastIndex)

/-- The specified log is the old one, or it goes on behind the end of the match
inside the log. -/
theorem specifiedLog_cases {log : RaftLog} (reaches : Reaches log request) :
    (alreadyThere log request = request.entries.length ∧ specifiedLog log request = log) ∨
    (request.prevLogIndex + 1 + alreadyThere log request ≤ log.entries.length ∧
      specifiedLog log request = ⟨log.entries.take (request.prevLogIndex + 1 +
        alreadyThere log request) ++ request.entries.drop (alreadyThere log request)⟩) := by
  by_cases all : alreadyThere log request = request.entries.length
  · exact Or.inl ⟨all, by rw [specifiedLog, if_pos all]⟩
  · have left : alreadyThere log request ≤ request.entries.length := matchingTerms_le_left _ _
    have right : alreadyThere log request ≤
        (log.entries.drop (request.prevLogIndex + 1)).length := matchingTerms_le_right _ _
    have inside : request.prevLogIndex ≤ log.lastIndex := by
      rcases reaches.2 with empty | inside
      · rw [empty] at all left
        exact absurd (Nat.le_zero.mp left) all
      · exact inside
    have positive := List.length_pos_iff.mpr reaches.1
    rw [List.length_drop] at right
    unfold RaftLog.lastIndex at inside
    exact Or.inr ⟨by omega, by rw [specifiedLog, if_neg all, Nat.add_right_comm]⟩

/-- What has been inserted is there. -/
theorem alreadyThere_specifiedLog {log : RaftLog} (reaches : Reaches log request) :
    alreadyThere (specifiedLog log request) request = request.entries.length := by
  rcases specifiedLog_cases reaches with ⟨all, same⟩ | ⟨inside, cut⟩
  · rw [same, all]
  · have length : (log.entries.take (request.prevLogIndex + 1 +
        alreadyThere log request)).length =
          request.prevLogIndex + 1 + alreadyThere log request := List.length_take_of_le inside
    rw [cut, alreadyThere, List.drop_append_of_le_length (by omega), List.drop_take,
      Nat.add_sub_cancel_left]
    exact matchingTerms_resume _ _

/-- Up to the previous index the log stays as it is. -/
theorem termAt_specifiedLog {log : RaftLog} (reaches : Reaches log request) :
    (specifiedLog log request).termAt request.prevLogIndex = log.termAt request.prevLogIndex := by
  rcases specifiedLog_cases reaches with ⟨_, same⟩ | ⟨inside, cut⟩
  · rw [same]
  · have length : (log.entries.take (request.prevLogIndex + 1 +
        alreadyThere log request)).length =
          request.prevLogIndex + 1 + alreadyThere log request := List.length_take_of_le inside
    rw [cut, RaftLog.termAt, RaftLog.termAt, List.getElem?_append_left (by omega),
      List.getElem?_take_of_lt (by omega)]

theorem reaches_specifiedLog {log : RaftLog} (reaches : Reaches log request) :
    Reaches (specifiedLog log request) request := by
  rcases specifiedLog_cases reaches with ⟨_, same⟩ | ⟨inside, cut⟩
  · rw [same]
    exact reaches
  · have length : (log.entries.take (request.prevLogIndex + 1 +
        alreadyThere log request)).length =
          request.prevLogIndex + 1 + alreadyThere log request := List.length_take_of_le inside
    have longer : request.prevLogIndex + 1 ≤ (specifiedLog log request).entries.length := by
      rw [cut, List.length_append]
      omega
    refine ⟨?_, Or.inr ?_⟩
    · intro empty
      rw [empty] at longer
      exact absurd longer (by simp)
    · unfold RaftLog.lastIndex
      omega

/-- A second insertion finds all entries in the log. -/
theorem insertEntries_again {inserted other : RaftNode} (reaches : Reaches node.state.log request)
    (ok : node.insertEntries request = .ok inserted)
    (sameLog : other.state.log = inserted.state.log) :
    other.state.log.termAt request.prevLogIndex = node.state.log.termAt request.prevLogIndex ∧
      other.insertEntries request = .ok other := by
  rw [insertEntries_log reaches.1 reaches.2 ok] at sameLog
  refine ⟨by rw [sameLog, termAt_specifiedLog reaches], ?_⟩
  by_cases empty : request.entries = []
  · exact insertEntries_of_empty other empty
  · have again := reaches_specifiedLog reaches
    rw [← sameLog] at again
    rw [insertEntries_inside again.1 (again.2.resolve_left empty) (insertEntries_fits empty ok),
      sameLog, alreadyThere_specifiedLog reaches, if_neg (Nat.lt_irrefl _)]

/-- Once the commit index has been taken over, taking it over again does nothing. -/
theorem followCommit_again {other : RaftNode} {leaderCommit : Nat}
    (log : other.state.log = (node.followCommit leaderCommit).1.state.log)
    (commit : other.state.commitIndex = (node.followCommit leaderCommit).1.state.commitIndex)
    (applied : other.state.lastApplied = (node.followCommit leaderCommit).1.state.lastApplied) :
    other.followCommit leaderCommit = (other, []) := by
  rw [followCommit_eq] at log commit applied ⊢
  split at log
  · next above =>
      rw [if_pos above] at commit applied
      change other.state.log = node.state.log at log
      change other.state.commitIndex = min leaderCommit node.state.log.lastIndex at commit
      change other.state.lastApplied =
        max node.state.lastApplied (min leaderCommit node.state.log.lastIndex) at applied
      rw [log]
      split
      · have reached : max other.state.lastApplied (min leaderCommit node.state.log.lastIndex) =
            other.state.lastApplied := by omega
        have nothing : min leaderCommit node.state.log.lastIndex - other.state.lastApplied = 0 := by
          omega
        rw [reached, applications, nothing, ← commit]
        rfl
      · rfl
  · next below =>
      rw [if_neg below] at commit
      change other.state.commitIndex = node.state.commitIndex at commit
      rw [if_neg (by omega)]

/-- The node has accepted the sender of a request as leader of its term. -/
structure Obeys (node : RaftNode) (request : AppendEntriesRequest) : Prop where
  term : node.state.currentTerm = request.term
  role : node.state.role = .follower
  leader : node.state.leaderId = some request.leaderId
  table : node.state.matchIndex = []

theorem obeys_acceptLeader (current : node.state.currentTerm ≤ request.term) :
    (node.acceptLeader request).Obeys request where
  term := by simpa using current
  role := by simp
  leader := rfl
  table := by
    rw [acceptLeader_state, RaftState.becomeFollower]

theorem Obeys.after {inserted : RaftNode} (obeys : node.Obeys request)
    (ok : node.insertEntries request = .ok inserted) (leaderCommit : Nat) :
    (inserted.followCommit leaderCommit).1.Obeys request := by
  rcases inserted.followCommit_shape leaderCommit with ⟨_, _, _, _, shape⟩
  rw [shape]
  rcases insertEntries_shape ok with ⟨log, persister, rfl⟩
  exact ⟨obeys.term, obeys.role, obeys.leader, obeys.table⟩

/-- Accepting the same leader again only restarts the timer and saves. -/
theorem Obeys.acceptLeader (obeys : node.Obeys request) :
    SameView node (node.acceptLeader request) := by
  have same : node.state.becomeFollower request.term =
      { node.state with role := .follower, nextIndex := [], matchIndex := [] } := by
    rw [RaftState.becomeFollower, if_neg (by rw [obeys.term]; exact Nat.lt_irrefl _)]
  have state : (node.acceptLeader request).state = { node.state with
      role := .follower, nextIndex := [], matchIndex := [], leaderId := some request.leaderId } := by
    rw [acceptLeader_state, same]
  exact {
    currentTerm := by rw [state]
    votedFor := by rw [state]
    log := by rw [state]
    role := by rw [state, obeys.role]
    leaderId := by rw [state, obeys.leader]
    commitIndex := by rw [state]
    lastApplied := by rw [state]
    votesReceived := rfl
    matchIndex := by rw [state, obeys.table] }

theorem handleAppendEntries_settles {after : RaftNode} {actions : List Action}
    (reaches : node.state.log.termAt request.prevLogIndex = request.prevLogTerm ->
      Reaches node.state.log request)
    (handled : node.handleAppendEntries request = .ok (after, actions)) :
    Settles after (after.handleAppendEntries request) := by
  rcases handleAppendEntries_cases handled with
    ⟨_, rfl, rfl⟩ | ⟨current, mismatch, rfl, _⟩ | ⟨current, same, inserted, ok, rfl, _⟩
  · rw [handled]
    exact ⟨_, _, rfl, .refl _, by simp [AppliesNothing]⟩
  · have obeys := obeys_acceptLeader current
    rw [← acceptLeader_log node request] at mismatch
    rw [handleAppendEntries_of_mismatch (Nat.le_of_eq obeys.term) mismatch]
    exact ⟨_, _, rfl, obeys.acceptLeader, by simp [AppliesNothing]⟩
  · have obeys := (obeys_acceptLeader current).after ok request.leaderCommit
    have view := obeys.acceptLeader
    rw [← acceptLeader_log node request] at reaches same
    have sameLog : ((inserted.followCommit request.leaderCommit).1.acceptLeader request).state.log =
        inserted.state.log := by
      rw [acceptLeader_log, followCommit_log]
    rcases insertEntries_again (reaches same) ok sameLog with ⟨previous, again⟩
    rw [acceptLeader_log] at previous
    rw [handleAppendEntries_of_match (Nat.le_of_eq obeys.term) (previous.trans same) again]
    rw [followCommit_again view.log view.commitIndex view.lastApplied]
    exact ⟨_, _, rfl, view, by simp [AppliesNothing]⟩

end Requests

end RaftNode
end Raft
end RaftStore
