import RaftStore.Raft.Handlers

namespace RaftStore
namespace Raft

open Collections

/-!
# What replication and the commit rule are for

The replication handler against its specification in terms of the two logs: a
request is accepted exactly if the log has the entry before the sent ones, and
then the sent entries are spliced in where the match ends.  The handler compares
terms only, and an index beyond the log has the term of the sentinel, so that a
request of previous term 0 passes the check wherever it points.

The commit rule against its specification as an order statistic of the match
indices: the scan of the source counts replicas for each index, and the index
that a majority has reached is the value of that rank.
-/

namespace RaftNode

/-! ## The replication handler -/

/-- The log has the entry right before the sent ones, with the sent term. -/
def HasPrevious (log : RaftLog) (request : AppendEntriesRequest) : Prop :=
  request.prevLogIndex ≤ log.lastIndex ∧
    (log.get request.prevLogIndex).map LogEntry.term = some request.prevLogTerm

instance (log : RaftLog) (request : AppendEntriesRequest) : Decidable (HasPrevious log request) :=
  inferInstanceAs (Decidable (_ ∧ _))

/-- How many leading entries of a request have the terms that the log has right
behind the previous index. -/
def alreadyThere (log : RaftLog) (request : AppendEntriesRequest) : Nat :=
  matchingTerms request.entries (log.entries.drop (request.prevLogIndex + 1))

/-- The log that an accepted request should leave. -/
def specifiedLog (log : RaftLog) (request : AppendEntriesRequest) : RaftLog :=
  if alreadyThere log request = request.entries.length then log
  else ⟨log.entries.take (request.prevLogIndex + alreadyThere log request + 1) ++
    request.entries.drop (alreadyThere log request)⟩

/-- The reply and the node after a request are as specified. -/
structure ReplySpecified (node : RaftNode) (request : AppendEntriesRequest) (after : RaftNode)
    (response : AppendEntriesResponse) : Prop where
  verdict : response.success = true <-> HasPrevious node.state.log request
  refused : response.success = false -> after.state.log = node.state.log ∧
    after.state.commitIndex = node.state.commitIndex ∧
    after.state.lastApplied = node.state.lastApplied
  accepted : response.success = true ->
    after.state.log = specifiedLog node.state.log request

/-- The handler returns, and it answers the sender once, behind the entries it
applies and as specified. -/
def MeetsSpecification (node : RaftNode) (request : AppendEntriesRequest) : Prop :=
  Exists fun after => Exists fun applied => Exists fun response =>
    node.handleAppendEntries request =
      .ok (after, applied ++ [.sendAppendEntriesResponse request.leaderId response]) ∧
    (forall action, action ∈ applied ->
      Exists fun index => Exists fun command => action = .applyEntry index command) ∧
    ReplySpecified node request after response

/-- A log that a `Vec` can hold and that has an entry at index 0. -/
def Storable (log : RaftLog) : Prop :=
  log.entries ≠ [] ∧ log.entries.length ≤ vecCapacity

/-- The indices of such a log are far from the end of a machine word. -/
theorem Storable.succ_lt {log : RaftLog} (storable : Storable log) {index : Nat}
    (inside : index ≤ log.lastIndex) : index + 1 < wordSize := by
  have capacity : vecCapacity < wordSize := by decide
  have positive := List.length_pos_iff.mpr storable.1
  have fits := storable.2
  unfold RaftLog.lastIndex at inside
  omega

/-- Inside the log the consistency check is the specified one. -/
theorem hasPrevious_iff {log : RaftLog} (kept : log.entries ≠ []) (request : AppendEntriesRequest) :
    HasPrevious log request <-> request.prevLogIndex ≤ log.lastIndex ∧
      log.termAt request.prevLogIndex = request.prevLogTerm := by
  unfold HasPrevious RaftLog.termAt
  refine and_congr_right fun inside => ?_
  have within : request.prevLogIndex < log.entries.length := by
    have positive := List.length_pos_iff.mpr kept
    unfold RaftLog.lastIndex at inside
    omega
  rw [RaftLog.get, List.getElem?_eq_getElem within]
  simp

/-- Applications and counters leave the log alone. -/
theorem followCommit_log (node : RaftNode) (leaderCommit : Nat) :
    (node.followCommit leaderCommit).1.state.log = node.state.log := by
  rcases node.followCommit_shape leaderCommit with ⟨_, _, _, _, shape⟩
  rw [shape]
  rfl

theorem mem_followCommit {node : RaftNode} {leaderCommit : Nat} {action : Action}
    (member : action ∈ (node.followCommit leaderCommit).2) :
    Exists fun index => Exists fun command => action = .applyEntry index command := by
  rcases node.followCommit_shape leaderCommit with ⟨_, _, _, _, shape⟩
  rw [shape] at member
  rcases mem_applications.mp member with ⟨index, _, _, entry, _, _, same⟩
  exact ⟨index, entry.command, same⟩

/-- The entries of a request have room in the log behind the previous index, or
nothing is to be inserted. -/
def HasRoom (log : RaftLog) (request : AppendEntriesRequest) : Prop :=
  alreadyThere log request = request.entries.length ∨
    request.prevLogIndex + 1 + request.entries.length ≤ vecCapacity

instance (log : RaftLog) (request : AppendEntriesRequest) : Decidable (HasRoom log request) :=
  inferInstanceAs (Decidable (_ ∨ _))

/-- What an insertion behind an index of the log does. -/
theorem insertEntries_inside {node : RaftNode} {request : AppendEntriesRequest}
    (kept : node.state.log.entries ≠ [])
    (inside : request.prevLogIndex ≤ node.state.log.lastIndex)
    (small : request.prevLogIndex + 1 < wordSize) :
    node.insertEntries request =
      if alreadyThere node.state.log request < request.entries.length then
        if request.prevLogIndex + 1 + request.entries.length ≤ vecCapacity then
          .ok (node.withEntries request (alreadyThere node.state.log request))
        else .error .capacity
      else .ok node := by
  rcases List.exists_cons_of_ne_nil kept with ⟨head, body, equal⟩
  have holds : node.state.log = ⟨head :: body⟩ := by rw [← equal]
  have shape : alreadyThere node.state.log request =
      matchingTerms request.entries (body.drop request.prevLogIndex) := by
    rw [alreadyThere, equal, List.drop_succ_cons]
  have reach : request.prevLogIndex ≤ body.length := by
    rw [RaftLog.lastIndex_eq_length_body, holds] at inside
    exact inside
  rw [shape]
  exact insertEntries_eq holds reach small

/-- An insertion that returns leaves the specified log, if it is behind an index of
the log or inserts nothing. -/
theorem insertEntries_log {node inserted : RaftNode} {request : AppendEntriesRequest}
    (kept : node.state.log.entries ≠ [])
    (reaches : request.entries = [] ∨ request.prevLogIndex ≤ node.state.log.lastIndex)
    (ok : node.insertEntries request = .ok inserted) :
    inserted.state.log = specifiedLog node.state.log request := by
  have bound : alreadyThere node.state.log request ≤ request.entries.length :=
    matchingTerms_le_left _ _
  by_cases empty : request.entries = []
  · rw [insertEntries_of_empty node empty] at ok
    cases ok
    rw [specifiedLog, if_pos (by rw [empty] at bound ⊢; exact Nat.le_zero.mp bound)]
  · have small := insertEntries_fits empty ok
    rw [insertEntries_inside kept (reaches.resolve_left empty) small] at ok
    split at ok
    · next unfinished =>
        split at ok
        · cases ok
          rw [specifiedLog, if_neg (Nat.ne_of_lt unfinished), Nat.add_right_comm]
          rfl
        · cases ok
    · next finished =>
        cases ok
        rw [specifiedLog, if_pos (by omega)]

/-- An insertion that has room returns. -/
theorem insertEntries_of_hasRoom {node : RaftNode} {request : AppendEntriesRequest}
    (storable : Storable node.state.log)
    (inside : request.prevLogIndex ≤ node.state.log.lastIndex)
    (room : HasRoom node.state.log request) :
    Exists fun inserted => node.insertEntries request = .ok inserted := by
  have bound : alreadyThere node.state.log request ≤ request.entries.length :=
    matchingTerms_le_left _ _
  rw [insertEntries_inside storable.1 inside (storable.succ_lt inside)]
  by_cases all : alreadyThere node.state.log request = request.entries.length
  · rw [if_neg (by omega)]
    exact ⟨_, rfl⟩
  · rw [if_pos (by omega), if_pos (room.resolve_left all)]
    exact ⟨_, rfl⟩

/-- Without room the handler panics, with room it inserts. -/
theorem hasRoom_of_insertEntries {node inserted : RaftNode} {request : AppendEntriesRequest}
    (storable : Storable node.state.log)
    (inside : request.prevLogIndex ≤ node.state.log.lastIndex)
    (ok : node.insertEntries request = .ok inserted) : HasRoom node.state.log request := by
  have bound : alreadyThere node.state.log request ≤ request.entries.length :=
    matchingTerms_le_left _ _
  rw [insertEntries_inside storable.1 inside (storable.succ_lt inside)] at ok
  split at ok
  · split at ok
    · next fits => exact Or.inr fits
    · cases ok
  · exact Or.inl (by omega)

section Replication

variable {node : RaftNode} {request : AppendEntriesRequest}

/-- The log right before the insertion is still the old one. -/
theorem acceptLeader_log (node : RaftNode) (request : AppendEntriesRequest) :
    (node.acceptLeader request).state.log = node.state.log := by
  simp

/-- A request that fails the check of the source is refused, as specified. -/
theorem meetsSpecification_of_mismatch (kept : node.state.log.entries ≠ [])
    (current : node.state.currentTerm ≤ request.term)
    (mismatch : node.state.log.termAt request.prevLogIndex ≠ request.prevLogTerm) :
    MeetsSpecification node request := by
  refine ⟨node.acceptLeader request, [], ⟨request.term, false, some node.state.log.lastIndex⟩,
    handleAppendEntries_of_mismatch current mismatch, by simp, ?_, ?_, ?_⟩
  · rw [hasPrevious_iff kept]
    constructor
    · intro impossible
      cases impossible
    · rintro ⟨_, same⟩
      exact absurd same mismatch
  · intro _
    simp
  · intro impossible
    cases impossible

/-- A request that points at an entry of the log is handled as specified if the
entries have room. -/
theorem meetsSpecification_of_match (storable : Storable node.state.log)
    (current : node.state.currentTerm ≤ request.term) (found : HasPrevious node.state.log request)
    (room : HasRoom node.state.log request) : MeetsSpecification node request := by
  rcases (hasPrevious_iff storable.1 request).mp found with ⟨inside, same⟩
  rw [← acceptLeader_log node request] at storable inside room
  rcases insertEntries_of_hasRoom storable inside room with ⟨inserted, ok⟩
  have log := insertEntries_log storable.1 (Or.inr inside) ok
  rw [acceptLeader_log] at log
  refine ⟨_, _, _, handleAppendEntries_of_match current same ok, ?_, ?_, ?_, ?_⟩
  · intro action member
    exact mem_followCommit member
  · exact iff_of_true rfl found
  · intro impossible
    cases impossible
  · intro _
    rw [followCommit_log, log]

/-- The replication handler meets its specification exactly if the request does
not point beyond the log with previous term 0, and the inserted entries have
room. -/
theorem meets_specification_iff (storable : Storable node.state.log)
    (current : node.state.currentTerm ≤ request.term) :
    MeetsSpecification node request <->
      ¬ (node.state.log.lastIndex < request.prevLogIndex ∧ request.prevLogTerm = 0) ∧
      (HasPrevious node.state.log request -> HasRoom node.state.log request) := by
  constructor
  · rintro ⟨after, applied, response, handled, _, specified⟩
    have check : HasPrevious node.state.log request <-> _ := hasPrevious_iff storable.1 request
    rcases handleAppendEntries_cases handled with
      ⟨stale, _⟩ | ⟨_, mismatch, _⟩ | ⟨_, same, inserted, ok, _, actions⟩
    · omega
    · refine ⟨?_, fun found => absurd (check.mp found).2 mismatch⟩
      rintro ⟨beyond, zero⟩
      rw [RaftLog.termAt_of_gt beyond, zero] at mismatch
      exact mismatch rfl
    · have success : response.success = true := by
        have last := congrArg List.getLast? actions
        simp only [List.getLast?_append, List.getLast?_singleton, Option.some_or,
          Option.some.injEq, Action.sendAppendEntriesResponse.injEq] at last
        rw [last.2]
      have found := specified.verdict.mp success
      have inside := found.1
      refine ⟨fun beyond => Nat.not_lt_of_le inside beyond.1, fun _ => ?_⟩
      rw [← acceptLeader_log node request] at storable inside
      rw [← acceptLeader_log node request]
      exact hasRoom_of_insertEntries storable inside ok
  · rintro ⟨pointed, room⟩
    by_cases same : node.state.log.termAt request.prevLogIndex = request.prevLogTerm
    · have inside : request.prevLogIndex ≤ node.state.log.lastIndex := by
        by_contra beyond
        have beyond := Nat.lt_of_not_le beyond
        rw [RaftLog.termAt_of_gt beyond] at same
        exact pointed ⟨beyond, same.symm⟩
      have found := (hasPrevious_iff storable.1 request).mpr ⟨inside, same⟩
      exact meetsSpecification_of_match storable current found (room found)
    · exact meetsSpecification_of_mismatch storable.1 current same

end Replication

theorem meets_specification_first_entry :
    MeetsSpecification (RaftNode.new 1 [1, 2]) ⟨1, 2, 0, 0, [⟨1, .noop⟩], 0⟩ :=
  (meets_specification_iff ⟨by decide, by decide⟩ (by decide)).mpr
    ⟨by decide, fun _ => by decide⟩

/-- A heartbeat of previous term 0 that points at an index beyond the log. -/
def phantomRequest : AppendEntriesRequest := ⟨1, 2, 5, 0, [], 0⟩

/-- A new node answers it with a success, although its log ends at index 0. -/
theorem phantom_request_succeeds :
    Storable (RaftNode.new 1 [1, 2]).state.log ∧
      (RaftNode.new 1 [1, 2]).state.currentTerm ≤ phantomRequest.term ∧
      ¬ HasPrevious (RaftNode.new 1 [1, 2]).state.log phantomRequest ∧
      (Exists fun after => (RaftNode.new 1 [1, 2]).handleAppendEntries phantomRequest =
        .ok (after, [.sendAppendEntriesResponse 2 ⟨1, true, some 0⟩])) ∧
      ¬ MeetsSpecification (RaftNode.new 1 [1, 2]) phantomRequest := by
  have absent : ¬ HasPrevious (RaftNode.new 1 [1, 2]).state.log phantomRequest := by decide
  have handled : (RaftNode.new 1 [1, 2]).handleAppendEntries phantomRequest =
      .ok ((RaftNode.new 1 [1, 2]).acceptLeader phantomRequest,
        [.sendAppendEntriesResponse 2 ⟨1, true, some 0⟩]) := rfl
  refine ⟨⟨by decide, by decide⟩, by decide, absent, ⟨_, handled⟩, ?_⟩
  rintro ⟨after, applied, response, returned, _, specified⟩
  rw [handled] at returned
  have replies := congrArg List.getLast? (Prod.mk.inj (Except.ok.inj returned)).2
  rw [List.getLast?_append, List.getLast?_singleton, List.getLast?_singleton] at replies
  cases replies
  exact absent (specified.verdict.mp rfl)

/-! ## The commit rule -/

/-- The index that a majority of the nodes is known to have reached: the leader
counts with the end of its log, each other node with its match index. -/
def majorityReach (node : RaftNode) : Option Nat :=
  nthLargest (node.state.log.lastIndex :: node.state.matchIndex.map Prod.snd)
    node.state.majorityCount

/-- Inside the log the count of replicas is a count among the reached indices. -/
theorem replicationCount_eq {node : RaftNode} {index : Nat}
    (inside : index ≤ node.state.log.lastIndex) :
    node.replicationCount index =
      (node.state.log.lastIndex :: node.state.matchIndex.map Prod.snd).countP
        (fun reached => index ≤ reached) := by
  rw [List.countP_cons_of_pos (by simpa using inside), List.countP_map, Nat.add_comm]
  rfl

theorem length_otherPeers {state : RaftState} (distinct : state.peers.Nodup)
    (member : state.id ∈ state.peers) : state.otherPeers.length + 1 = state.peers.length := by
  have erased : state.otherPeers = state.peers.erase state.id := by
    rw [distinct.erase_eq_filter, RaftState.otherPeers]
    apply List.filter_congr
    intro peerId _
    grind
  have positive := List.length_pos_of_mem member
  rw [erased, List.length_erase_of_mem member]
  omega

/-- The committable indices are those of the current term up to the index a
majority has reached. -/
theorem committable_iff_reached {node : RaftNode} {reach : Nat}
    (reached : node.majorityReach = some reach) (index : Nat) :
    node.Committable index <->
      node.state.commitIndex < index ∧ index ≤ min reach node.state.log.lastIndex ∧
        node.state.log.termAt index = node.state.currentTerm := by
  have ranked : index ≤ node.state.log.lastIndex ->
      (index ≤ reach <-> node.state.majorityCount ≤ node.replicationCount index) := by
    intro inside
    rw [replicationCount_eq inside]
    exact le_nthLargest_iff (Nat.le_add_left 1 _) reached index
  constructor
  · rintro ⟨fresh, inside, current, replicated⟩
    exact ⟨fresh, le_min ((ranked inside).mpr replicated) inside, current⟩
  · rintro ⟨fresh, bound, current⟩
    have inside := le_trans bound (min_le_right _ _)
    exact ⟨fresh, inside, current, (ranked inside).mp (le_trans bound (min_le_left _ _))⟩

theorem maybeAdvanceCommitIndex_commitIndex (node : RaftNode) :
    node.maybeAdvanceCommitIndex.1.state.commitIndex = node.scannedCommit := by
  rw [maybeAdvanceCommitIndex_eq]
  split
  · rfl
  · next unmoved =>
      rcases node.scannedCommit_cases with same | committable
      · exact same.symm
      · exact absurd committable.fresh unmoved

/-- The commit rule takes the greatest committable index, which is the greatest
index of the current term that a majority has reached. -/
theorem commit_rule {node : RaftNode} (distinct : node.state.peers.Nodup)
    (member : node.state.id ∈ node.state.peers)
    (complete : (node.state.matchIndex.map Prod.fst).Perm node.state.otherPeers) :
    IsGreatestOr {index | node.state.commitIndex < index ∧ index ≤ node.state.log.lastIndex ∧
        node.state.log.termAt index = node.state.currentTerm ∧
        node.state.majorityCount ≤
          1 + node.state.matchIndex.countP (fun pair => index ≤ pair.2)}
      node.state.commitIndex node.maybeAdvanceCommitIndex.1.state.commitIndex ∧
    Exists fun reach => node.majorityReach = some reach ∧
      IsGreatestOr {index | node.state.commitIndex < index ∧
          index ≤ min reach node.state.log.lastIndex ∧
          node.state.log.termAt index = node.state.currentTerm}
        node.state.commitIndex node.maybeAdvanceCommitIndex.1.state.commitIndex := by
  have greatest := node.isGreatestOr_scannedCommit
  have covered : node.state.majorityCount ≤
      (node.state.log.lastIndex :: node.state.matchIndex.map Prod.snd).length := by
    have others := length_otherPeers distinct member
    rw [← complete.length_eq, List.length_map] at others
    rw [List.length_cons, List.length_map, RaftState.majorityCount]
    omega
  rcases exists_nthLargest (Nat.le_add_left 1 _) covered with ⟨reach, reached⟩
  rw [maybeAdvanceCommitIndex_commitIndex]
  constructor
  · exact greatest.congr node.committable_iff
  · exact ⟨reach, reached, greatest.congr (committable_iff_reached reached)⟩

/-- A leader of three nodes with two entries of its term.  One follower has reported
both, the other none. -/
def halfway : RaftNode :=
  { RaftNode.new 1 [1, 2, 3] with state := { RaftState.new 1 [1, 2, 3] with
      currentTerm := 1
      role := .leader
      log := ⟨[sentinel, ⟨1, .noop⟩, ⟨1, .put "k" "v"⟩]⟩
      matchIndex := [(2, 2), (3, 0)] } }

theorem commit_rule_halfway :
    Exists fun reach => halfway.majorityReach = some reach ∧
      IsGreatestOr {index | halfway.state.commitIndex < index ∧
          index ≤ min reach halfway.state.log.lastIndex ∧
          halfway.state.log.termAt index = halfway.state.currentTerm}
        halfway.state.commitIndex halfway.maybeAdvanceCommitIndex.1.state.commitIndex := by
  have distinct : halfway.state.peers.Nodup := by decide
  have complete : (halfway.state.matchIndex.map Prod.fst).Perm halfway.state.otherPeers := by
    decide
  exact (commit_rule distinct (by decide) complete).2

end RaftNode
end Raft
end RaftStore
