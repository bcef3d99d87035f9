import RaftStore.Cluster.Commit

namespace RaftStore
namespace Cluster

open Raft Consensus Systems

/-!
# Prudent runs commit only what is durable

Every handler is taken through the commit invariant.  A `Passage` collects what
is known around one handler: the ledger before and after it, the node it found
and the node it left.  The results are about whole runs: if no step gives a
leader a wrong belief, no two nodes ever apply different commands at one index,
and nothing below a commit index is ever removed or replaced.
-/

/-- The surroundings of one handler. -/
structure Passage (peers : List Nat) (ledger later : Ledger Nat LogEntry) (id : Nat)
    (node after : RaftNode) : Prop where
  represents : Represents peers ledger id node
  sound : SoundFor peers ledger
  settled : Settled peers ledger id node
  steps : StepsOf peers id ledger later
  represented : Represents peers later id after
  recorded : Recorded later

/-- What a handler leaves: a settled node, credible messages, and durable
applications.  The commit index does not go below `floor`. -/
structure Advances (peers : List Nat) (later : Ledger Nat LogEntry) (id floor : Nat)
    (after : RaftNode) (actions : List Action) : Prop where
  settled : Settled peers later id after
  sent : forall action, action ∈ actions -> forall packet, packetOf id action = some packet ->
    Credible peers later packet
  applied : forall index command, Action.applyEntry index command ∈ actions ->
    Applied peers later index command
  monotone : floor ≤ after.state.commitIndex

namespace Passage

variable {peers : List Nat} {ledger later : Ledger Nat LogEntry} {id : Nat} {node after : RaftNode}
  {actions : List Action}

theorem same_log (passage : Passage peers ledger later id node after)
    (same : after.state.log = node.state.log) : later.log id = ledger.log id := by
  have equal := passage.represented.log_eq
  rw [same, passage.represents.log_eq] at equal
  exact (List.cons.inj (RaftLog.mk.inj equal)).2.symm

theorem same_term (passage : Passage peers ledger later id node after)
    (same : after.state.currentTerm = node.state.currentTerm) : later.term id = ledger.term id := by
  rw [← passage.represented.term_eq, ← passage.represents.term_eq, same]

theorem moves (passage : Passage peers ledger later id node after) : Moves id ledger later :=
  passage.steps.moves passage.sound

theorem soundLater (passage : Passage peers ledger later id node after) : SoundFor peers later :=
  passage.steps.sound passage.sound

/-- What the node had committed is still in its log. -/
theorem kept (passage : Passage peers ledger later id node after) :
    (ledger.log id).take node.state.commitIndex <+: later.log id :=
  passage.steps.keeps_durable passage.sound passage.settled.durable (List.take_prefix _ _)

/-- Some node the handler went through, after its last change of the log and
with the commit index it started with. -/
theorem settle (passage : Passage peers ledger later id node after) {middle : RaftNode}
    (sameCommit : middle.state.commitIndex = node.state.commitIndex)
    (sameApplied : middle.state.lastApplied = node.state.lastApplied)
    (backed : Backed later id middle) : Settled peers later id middle where
  applied := by rw [sameCommit, sameApplied, passage.settled.applied]
  bound := by
    have length := passage.kept.length_le
    rw [List.length_take_of_le passage.settled.bound] at length
    rw [sameCommit]
    exact length
  durable := by
    rw [sameCommit, take_eq_of_isPrefix passage.settled.bound passage.kept]
    exact passage.settled.durable.mono passage.moves.toExtends (passage.moves.term_le id)
  backed := backed

/-- A handler that does not move the commit index and emits only messages. -/
theorem advances_of_same (passage : Passage peers ledger later id node after)
    (sameCommit : after.state.commitIndex = node.state.commitIndex)
    (sameApplied : after.state.lastApplied = node.state.lastApplied)
    (backed : Backed later id after)
    (sent : Settled peers later id after -> forall action, action ∈ actions ->
      forall packet, packetOf id action = some packet -> Credible peers later packet)
    (silent : forall index command, Action.applyEntry index command ∉ actions) :
    Advances peers later id node.state.commitIndex after actions := by
  have settled := passage.settle sameCommit sameApplied backed
  exact ⟨settled, sent settled, fun index command member => absurd member (silent index command),
    Nat.le_of_eq sameCommit.symm⟩

/-- The beliefs of a node whose role, term, log and matches did not change. -/
theorem backed_of_same (passage : Passage peers ledger later id node after)
    (sameTerm : after.state.currentTerm = node.state.currentTerm)
    (sameLog : after.state.log = node.state.log) (sameRole : after.state.role = node.state.role)
    (sameMatch : after.state.matchIndex = node.state.matchIndex) : Backed later id after := by
  refine passage.settled.backed.keep passage.moves.toExtends (passage.same_term sameTerm)
    (by rw [passage.same_log sameLog]) sameRole sameMatch ?_
  rw [RaftState.otherPeers, RaftState.otherPeers, passage.represented.id_eq,
    passage.represents.id_eq, passage.represented.peers_eq, passage.represents.peers_eq]

/-- A handler that leaves the node's state as it was and sends nothing. -/
theorem advances_silently (passage : Passage peers ledger later id node after)
    (same : after.state = node.state) :
    Advances peers later id node.state.commitIndex after [] :=
  passage.advances_of_same (by rw [same]) (by rw [same])
    (passage.backed_of_same (by rw [same]) (by rw [same]) (by rw [same]) (by rw [same]))
    (fun _ _ member => (List.not_mem_nil member).elim) (fun _ _ => List.not_mem_nil)

/-- A handler that makes the node step down and sends nothing. -/
theorem advances_stepDown {term : Nat}
    (passage : Passage peers ledger later id node (node.stepDown term)) :
    Advances peers later id node.state.commitIndex (node.stepDown term) [] :=
  passage.advances_of_same (by simp) (by simp) (backed_of_not_leader (by simp))
    (fun _ _ member => (List.not_mem_nil member).elim) (fun _ _ => List.not_mem_nil)

/-! ## Elections -/

theorem applyEntry_not_mem_replicate {index : Nat} {command : LogCommand} :
    Action.applyEntry index command ∉ node.replicateToAllPeers := by
  intro member
  rcases RaftNode.mem_replicateToAllPeers member with ⟨_, _, _, _, equal⟩
  cases equal

/-- Taking over leadership, from a node with the same log and commit index. -/
theorem advances_winElection {winner : RaftNode}
    (passage : Passage peers ledger later id node winner.winElection.1)
    (sameCommit : winner.state.commitIndex = node.state.commitIndex)
    (sameApplied : winner.state.lastApplied = node.state.lastApplied) :
    Advances peers later id node.state.commitIndex winner.winElection.1
      winner.winElection.2 :=
  passage.advances_of_same sameCommit sameApplied backed_winElection
    (fun settled _ member _ sent =>
      settled.credible_replicate passage.represented passage.soundLater rfl member sent)
    (fun _ _ => applyEntry_not_mem_replicate)

theorem advances_startElection (passage : Passage peers ledger later id node after) {timeout : Nat}
    (started : ({ node with electionTimeout := timeout } : RaftNode).startElection =
      .ok (after, actions)) :
    Advances peers later id node.state.commitIndex after actions := by
  rcases RaftNode.startElection_eq_ok.mp started with ⟨_, result⟩
  split at result
  · have first := congrArg Prod.fst result
    have second := congrArg Prod.snd result
    simp only at first second
    subst first second
    exact passage.advances_winElection rfl rfl
  · cases result
    refine passage.advances_of_same rfl rfl (backed_of_not_leader (by rintro ⟨⟩)) ?_ ?_
    · intro _ action member packet sent
      rcases List.mem_map.mp member with ⟨peerId, _, rfl⟩
      cases sent
      exact True.intro
    · intro index command member
      rcases List.mem_map.mp member with ⟨peerId, _, equal⟩
      cases equal

theorem advances_tick (passage : Passage peers ledger later id node after)
    (ticked : node.tick = .ok (after, actions)) :
    Advances peers later id node.state.commitIndex after actions := by
  rcases RaftNode.tick_cases ticked with
    ⟨timeout, rfl, rfl⟩ | ⟨role, timeout, rfl, sent⟩ | ⟨_, timeout, started⟩
  · exact passage.advances_silently rfl
  · refine passage.advances_of_same rfl rfl (passage.backed_of_same rfl rfl rfl rfl) ?_ ?_
    · intro settled action member packet packed
      rcases sent with none | all
      · rw [none] at member
        cases member
      · rw [all] at member
        exact settled.credible_replicate passage.represented passage.soundLater role member packed
    · intro index command member
      rcases sent with none | all
      · rw [none] at member
        cases member
      · rw [all] at member
        exact applyEntry_not_mem_replicate member
  · exact passage.advances_startElection started

/-! ## Votes -/

/-- A reply to a vote request concerns neither commitment nor matches. -/
theorem credible_of_voteResponse {recipient : Nat} {response : RequestVoteResponse} {action : Action}
    (member : action ∈ [Action.sendRequestVoteResponse recipient response]) {packet : Packet}
    (sent : packetOf id action = some packet) : Credible peers later packet := by
  rw [List.mem_singleton.mp member] at sent
  cases sent
  exact True.intro

theorem applyEntry_not_mem_voteResponse {recipient index : Nat} {response : RequestVoteResponse}
    {command : LogCommand} :
    Action.applyEntry index command ∉ [Action.sendRequestVoteResponse recipient response] := by
  intro member
  cases List.mem_singleton.mp member

theorem advances_handleRequestVote {request : RequestVoteRequest}
    (passage : Passage peers ledger later id node (node.handleRequestVote request).1) :
    Advances peers later id node.state.commitIndex (node.handleRequestVote request).1
      (node.handleRequestVote request).2 := by
  have raised : forall (voter : RaftNode) (response : RequestVoteResponse),
      Passage peers ledger later id node voter ->
      voter.state.log = (node.raiseTerm request.term).state.log ->
      voter.state.commitIndex = (node.raiseTerm request.term).state.commitIndex ->
      voter.state.lastApplied = (node.raiseTerm request.term).state.lastApplied ->
      voter.state.role = (node.raiseTerm request.term).state.role ->
      voter.state.currentTerm = (node.raiseTerm request.term).state.currentTerm ->
      voter.state.matchIndex = (node.raiseTerm request.term).state.matchIndex ->
      Advances peers later id node.state.commitIndex voter
        [.sendRequestVoteResponse request.candidateId response] := by
    intro voter response passage sameLog sameCommit sameApplied sameRole sameTerm sameMatch
    unfold RaftNode.raiseTerm at sameLog sameCommit sameApplied sameRole sameTerm sameMatch
    refine passage.advances_of_same ?_ ?_ ?_
      (fun _ _ member _ sent => credible_of_voteResponse member sent)
      (fun _ _ => applyEntry_not_mem_voteResponse)
    · rw [sameCommit]
      split <;> simp
    · rw [sameApplied]
      split <;> simp
    · split at sameRole
      · exact backed_of_not_leader (by rw [sameRole]; simp)
      · next lower =>
          rw [if_neg lower] at sameLog sameTerm sameMatch
          exact passage.backed_of_same sameTerm sameLog sameRole sameMatch
  rcases node.handleRequestVote_cases request with ⟨_, equal⟩ | ⟨_, _, _, equal⟩ | ⟨_, _, equal⟩
  · rw [equal] at passage ⊢
    exact passage.advances_of_same rfl rfl (passage.backed_of_same rfl rfl rfl rfl)
      (fun _ _ member _ sent => credible_of_voteResponse member sent)
      (fun _ _ => applyEntry_not_mem_voteResponse)
  · rw [equal] at passage ⊢
    exact raised _ _ passage rfl rfl rfl rfl rfl rfl
  · rw [equal] at passage ⊢
    exact raised _ _ passage rfl rfl rfl rfl rfl rfl

theorem advances_handleRequestVoteResponse {sender : Nat} {response : RequestVoteResponse}
    (passage : Passage peers ledger later id node
      (node.handleRequestVoteResponse sender response).1) :
    Advances peers later id node.state.commitIndex
      (node.handleRequestVoteResponse sender response).1
      (node.handleRequestVoteResponse sender response).2 := by
  have sameState := node.countVote_state sender response
  rcases node.handleRequestVoteResponse_cases sender response with
    equal | ⟨_, _, equal⟩ | ⟨_, _, equal⟩
  · rw [equal] at passage ⊢
    exact passage.advances_silently rfl
  · rw [equal] at passage ⊢
    exact passage.advances_stepDown
  · rw [equal] at passage ⊢
    split at passage
    · next enough =>
        rw [if_pos enough]
        exact passage.advances_winElection (by rw [sameState]) (by rw [sameState])
    · next few =>
        rw [if_neg few]
        exact passage.advances_silently sameState

/-! ## Replication requests -/

/-- What a follower's log is after a request that leaves no foreign tail: a part
of the leader's log. -/
theorem accepted_isPrefix {request : AppendEntriesRequest}
    (represents : Represents peers ledger id node) (sound : SoundFor peers ledger)
    {r : Reign Nat LogEntry}
    (found : ledger.reign request.term = some r) (accepts : Accepts node request)
    (noTail : ¬ ForeignTail node request) {base : List LogEntry}
    (cut : base ++ request.entries <+: r.log) (length : base.length = request.prevLogIndex) :
    overlay (base ++ request.entries) (ledger.log id) <+: r.log := by
  unfold overlay
  by_cases already : base ++ request.entries <+: ledger.log id
  · rw [if_pos already]
    rcases already with ⟨tail, whole⟩
    by_cases ended : tail = []
    · rw [← whole, ended, List.append_nil]
      exact cut
    · -- the log goes on, so its last entry is one of the leader's own term
      have body : node.state.log.body = base ++ request.entries ++ tail := by
        rw [represents.log_eq, RaftLog.body_mk, whole]
      have rest : node.state.log.body.drop request.prevLogIndex = request.entries ++ tail := by
        rw [body, ← length, List.append_assoc, List.drop_left]
      have lastTerm_eq : node.state.log.lastTerm = lastTerm LogEntry.term (ledger.log id) := by
        rw [represents.log_eq, RaftLog.lastTerm_eq_body (RaftLog.hasSentinel_mk _),
          RaftLog.body_mk]
        rfl
      have current : lastTerm LogEntry.term (ledger.log id) = request.term := by
        by_contra other
        apply noTail
        refine ⟨accepts, ?_, ?_, by rw [lastTerm_eq]; exact other⟩
        · rw [rest]
          exact matchingTerms_append _ _
        · rw [RaftLog.lastIndex_eq_length_body, body]
          have positive := List.length_pos_iff.mpr ended
          simp only [List.length_append, length]
          omega
      rcases eq_nil_or_endsIn LogEntry.term (ledger.log id) with empty | ⟨init, last, equal, same⟩
      · rw [empty] at whole
        exact absurd (List.append_eq_nil_iff.mp whole).2 ended
      · rcases sound.log_rooted id init last (by rw [equal]) with ⟨r', found', issued⟩
        rw [same, current, found] at found'
        cases found'
        rw [equal]
        exact issued
  · rw [if_neg already]
    exact cut

/-- A reply that refuses concerns neither commitment nor matches. -/
theorem credible_of_refusal {recipient term : Nat} {hint : Option Nat} {action : Action}
    (member : action ∈ [Action.sendAppendEntriesResponse recipient ⟨term, false, hint⟩])
    {packet : Packet} (sent : packetOf id action = some packet) : Credible peers later packet := by
  rw [List.mem_singleton.mp member] at sent
  cases sent
  intro success
  cases success

theorem applyEntry_not_mem_reply {recipient index : Nat} {response : AppendEntriesResponse}
    {command : LogCommand} :
    Action.applyEntry index command ∉ [Action.sendAppendEntriesResponse recipient response] := by
  intro member
  cases List.mem_singleton.mp member

/-- A success reply is credible when the log it reports the end of is part of the
leader's log. -/
theorem credible_success (passage : Passage peers ledger later id node after)
    {r : Reign Nat LogEntry} (found : later.reign (later.term id) = some r)
    (issued : later.log id <+: r.log) (recipient : Nat) :
    Credible peers later ⟨recipient, .appendEntriesResponse id
      ⟨after.state.currentTerm, true, some after.state.log.lastIndex⟩⟩ := by
  have lastIndex : after.state.log.lastIndex = (later.log id).length := by
    rw [RaftLog.lastIndex_eq_length_body, passage.represented.log_eq, RaftLog.body_mk]
  have sameTerm := passage.represented.term_eq
  intro _
  refine ⟨r, _, rfl, by rw [sameTerm]; exact found, ?_, ?_⟩
  · rw [lastIndex]
    exact issued.length_le
  · rw [lastIndex, sameTerm, ← List.prefix_iff_eq_take.mp issued]
    exact passage.recorded id _ ⟨List.prefix_rfl, r, found, issued⟩

/-- An accepted request that is prudent. -/
theorem advances_accepted {request : AppendEntriesRequest} {inserted : RaftNode}
    (passage : Passage peers ledger later id node (inserted.followCommit request.leaderCommit).1)
    {sender : Nat} (justified : Justified peers ledger ⟨id, .appendEntries sender request⟩)
    (credible : Credible peers ledger ⟨id, .appendEntries sender request⟩)
    (prudent : ¬ ForeignTail node request ∧ ¬ Unverified node request)
    (accepts : Accepts node request)
    (ok : (node.acceptLeader request).insertEntries request = .ok inserted) :
    Advances peers later id node.state.commitIndex
      (inserted.followCommit request.leaderCommit).1
      ((inserted.followCommit request.leaderCommit).2 ++
        [.sendAppendEntriesResponse request.leaderId
          ⟨(inserted.followCommit request.leaderCommit).1.state.currentTerm, true,
            some (inserted.followCommit request.leaderCommit).1.state.log.lastIndex⟩]) := by
  rcases passage.represents.acceptLeader passage.sound accepts.1 with
    ⟨middle, steps, followed, _, sameLog, sameReign⟩
  rcases justified with ⟨_, r, found, _, issued⟩
  have sameEntries : (node.acceptLeader request).state.log = node.state.log := by simp
  rcases followed.insertEntries_cases (steps.sound passage.sound) (by rw [sameReign]; exact found)
      issued (by rw [sameEntries]; exact accepts.2) ok with
    ⟨base, cut, length, _, equal, _, _⟩ | ⟨_, outside, _⟩
  · rw [sameLog] at equal
    have partOfLeader := accepted_isPrefix passage.represents passage.sound found accepts prudent.1
      cut length
    have original := passage.represented.of_followCommit
    have newLog : later.log id = overlay (base ++ request.entries) (ledger.log id) := by
      have logs := original.log_eq
      rw [equal] at logs
      exact (List.cons.inj (RaftLog.mk.inj logs)).2.symm
    have newTerm : later.term id = request.term := by
      rw [← original.term_eq, equal]
      simpa using accepts.1
    rw [← newLog] at partOfLeader
    rcases passage.moves.reign found with ⟨r', found', _, _, longer⟩
    have settled : Settled peers later id inserted :=
      passage.settle (by rw [equal]; simp) (by rw [equal]; simp)
        (backed_of_not_leader (by rw [equal]; simp))
    rcases credible.mono passage.moves.toExtends with ⟨_, again, _, durable⟩
    rw [found'] at again
    cases again
    rw [← newTerm] at durable
    have commitment := settled.followCommit original (partOfLeader.trans longer) durable
    refine ⟨commitment.settled, ?_, ?_, ?_⟩
    · intro action member packet sent
      rcases List.mem_append.mp member with applied | last
      · rw [(original.followCommit request.leaderCommit).2 action applied] at sent
        cases sent
      · rw [List.mem_singleton.mp last] at sent
        cases sent
        exact passage.credible_success (by rw [newTerm]; exact found') (partOfLeader.trans longer) _
    · intro index command member
      rcases List.mem_append.mp member with applied | last
      · exact commitment.applied index command applied
      · exact absurd last applyEntry_not_mem_reply
    · have sameCommit : inserted.state.commitIndex = node.state.commitIndex := by
        rw [equal]
        simp
      rw [← sameCommit]
      exact commitment.monotone
  · rw [sameLog] at outside
    refine absurd ⟨accepts, ?_⟩ prudent.2
    rw [RaftLog.lastIndex_eq_length_body, passage.represents.log_eq, RaftLog.body_mk]
    exact outside

theorem advances_handleAppendEntries {request : AppendEntriesRequest}
    (passage : Passage peers ledger later id node after) {sender : Nat}
    (justified : Justified peers ledger ⟨id, .appendEntries sender request⟩)
    (credible : Credible peers ledger ⟨id, .appendEntries sender request⟩)
    (prudent : ¬ ForeignTail node request ∧ ¬ Unverified node request)
    (handled : node.handleAppendEntries request = .ok (after, actions)) :
    Advances peers later id node.state.commitIndex after actions := by
  rcases RaftNode.handleAppendEntries_cases handled with
    ⟨_, rfl, rfl⟩ | ⟨_, _, rfl, rfl⟩ | ⟨current, passes, inserted, ok, rfl, rfl⟩
  · exact passage.advances_of_same rfl rfl (passage.backed_of_same rfl rfl rfl rfl)
      (fun _ _ member _ sent => credible_of_refusal member sent)
      (fun _ _ => applyEntry_not_mem_reply)
  · exact passage.advances_of_same (by simp) (by simp) (backed_of_not_leader (by simp))
      (fun _ _ member _ sent => credible_of_refusal member sent)
      (fun _ _ => applyEntry_not_mem_reply)
  · exact passage.advances_accepted justified credible prudent ⟨current, passes⟩ ok

/-! ## Replication responses and proposals -/

/-- The beliefs of a leader that has recorded a match of its own term. -/
theorem backed_recordMatch (passage : Passage peers ledger later id node after) {recorded : RaftNode}
    (role : node.state.role = .leader) (sameLog : later.log id = ledger.log id)
    (sameTerm : later.term id = ledger.term id) {sender : Nat} {response : AppendEntriesResponse}
    (success : response.success = true) (current : response.term = node.state.currentTerm)
    (credible : Credible peers ledger ⟨id, .appendEntriesResponse sender response⟩)
    (ok : node.recordMatch sender response.matchIndex = .ok recorded) : Backed later id recorded := by
  rcases credible success with ⟨r, reported, given, found, bound, agreed⟩
  rcases passage.represents.reign_of_leader passage.sound role with ⟨r', found', _, ownLog⟩
  rw [current, found'] at found
  cases found
  rcases passage.settled.backed role with ⟨keys, pairs⟩
  rcases RaftNode.recordMatch_eq_ok ok with ⟨matchIndex, nextIndex, rfl, unchanged | updated⟩
  · rw [given] at unchanged
    cases unchanged.1
  · rcases updated with ⟨index, same, moved, _⟩
    rw [given] at same
    cases same
    intro _
    refine ⟨(RaftNode.updateFirst_keys moved).trans keys, ?_⟩
    intro pair member
    rw [sameLog, sameTerm]
    rcases RaftNode.mem_updateFirst moved member with before | ⟨key, _, _, value⟩
    · rcases pairs pair before with ⟨inside, held⟩
      exact ⟨inside, held.imp_right passage.moves.agreed⟩
    · have equal : pair.2 = reported := (Except.ok.inj value).symm
      rw [equal, key, ownLog, ← passage.represents.term_eq, ← current]
      exact ⟨bound, Or.inr (passage.moves.agreed agreed)⟩

theorem advances_handleAppendEntriesResponse (distinct : peers.Nodup) (member : id ∈ peers)
    (passage : Passage peers ledger later id node after) {sender : Nat}
    {response : AppendEntriesResponse}
    (credible : Credible peers ledger ⟨id, .appendEntriesResponse sender response⟩)
    (prudent : ¬ StaleMatch node response)
    (handled : node.handleAppendEntriesResponse sender response = .ok (after, actions)) :
    Advances peers later id node.state.commitIndex after actions := by
  rcases RaftNode.handleAppendEntriesResponse_cases handled with
    ⟨_, rfl, rfl⟩ | ⟨_, _, rfl, rfl⟩ | ⟨role, bound, success, recorded, ok, equal⟩ |
    ⟨role, _, _, ok, rfl⟩
  · exact passage.advances_silently rfl
  · exact passage.advances_stepDown
  · have current : response.term = node.state.currentTerm := by
      by_contra other
      exact prudent ⟨role, success, Nat.lt_of_le_of_ne bound other⟩
    have first : after = recorded.maybeAdvanceCommitIndex.1 := congrArg Prod.fst equal
    have second : actions = recorded.maybeAdvanceCommitIndex.2 := congrArg Prod.snd equal
    subst first second
    have original := passage.represented.of_maybeAdvanceCommitIndex
    rcases RaftNode.recordMatch_eq_ok ok with ⟨matchIndex, nextIndex, tables, _⟩
    have sameLog : later.log id = ledger.log id := by
      have logs := original.log_eq
      rw [tables, passage.represents.log_eq] at logs
      exact (List.cons.inj (RaftLog.mk.inj logs)).2.symm
    have sameTerm : later.term id = ledger.term id := by
      rw [← original.term_eq, ← passage.represents.term_eq, tables]
    have settled : Settled peers later id recorded :=
      passage.settle (by rw [tables]) (by rw [tables])
        (passage.backed_recordMatch role sameLog sameTerm success current credible ok)
    have commitment := settled.maybeAdvanceCommitIndex distinct member original passage.soundLater
      passage.recorded (by rw [tables]; exact role)
    refine ⟨commitment.settled, ?_, commitment.applied, ?_⟩
    · intro action listed packet sent
      rw [original.maybeAdvanceCommitIndex.2 action listed] at sent
      cases sent
    · have sameCommit : recorded.state.commitIndex = node.state.commitIndex := by rw [tables]
      rw [← sameCommit]
      exact commitment.monotone
  · rcases RaftNode.recordRejection_eq_ok ok with ⟨nextIndex, rfl, _⟩
    exact passage.advances_of_same rfl rfl (passage.backed_of_same rfl rfl rfl rfl)
      (fun _ _ listed => (List.not_mem_nil listed).elim) (fun _ _ => List.not_mem_nil)

theorem advances_propose (distinct : peers.Nodup) (member : id ∈ peers)
    (passage : Passage peers ledger later id node after) {command : LogCommand}
    {emitted : Option (List Action)} (proposed : node.propose command = .ok (after, emitted)) :
    Advances peers later id node.state.commitIndex after (emitted.getD []) := by
  rcases RaftNode.propose_cases proposed with ⟨_, rfl, rfl⟩ | ⟨role, _, rfl, rfl⟩
  · exact passage.advances_silently rfl
  · have original := passage.represented.of_maybeAdvanceCommitIndex
    have grown : later.log id = ledger.log id ++ [⟨node.state.currentTerm, command⟩] := by
      have logs := original.log_eq
      change RaftLog.mk (node.state.log.entries ++ [_]) = _ at logs
      rw [passage.represents.log_eq] at logs
      exact (List.cons.inj (RaftLog.mk.inj logs)).2.symm
    have longer : ledger.log id <+: later.log id := by
      rw [grown]
      exact List.prefix_append _ _
    have sameTerm : later.term id = ledger.term id := by
      rw [← original.term_eq, ← passage.represents.term_eq]
      rfl
    have settled : Settled peers later id (node.withEntry command) :=
      passage.settle rfl rfl (passage.settled.backed.keep passage.moves.toExtends sameTerm
        longer rfl rfl rfl)
    have commitment := settled.maybeAdvanceCommitIndex distinct member original passage.soundLater
      passage.recorded role
    refine ⟨commitment.settled, ?_, ?_, commitment.monotone⟩
    · intro action listed packet sent
      rcases List.mem_append.mp listed with replicated | applied
      · exact settled.credible_replicate original passage.soundLater role replicated sent
      · rw [original.maybeAdvanceCommitIndex.2 action applied] at sent
        cases sent
    · intro index value listed
      rcases List.mem_append.mp listed with replicated | applied
      · exact absurd replicated applyEntry_not_mem_replicate
      · exact commitment.applied index value applied

/-! ## Restarts -/

theorem advances_restart :
    Advances peers later id 0 (Configuration.restarted peers id node) [] := by
  have awakened := Configuration.awakened_restarted peers id node
  refine ⟨⟨by rw [awakened.commit, awakened.applied], by rw [awakened.commit]; exact Nat.zero_le _,
    ?_, backed_of_not_leader (by rw [awakened.role]; simp)⟩,
    fun _ listed => (List.not_mem_nil listed).elim,
    fun _ _ listed => (List.not_mem_nil listed).elim, Nat.zero_le _⟩
  rw [awakened.commit]
  exact Or.inl rfl

end Passage

/-! ## Steps and runs -/

section Runs

variable {peers : List Nat} {ledger : Ledger Nat LogEntry} {config : Configuration}

/-- The commit index an event cannot undercut: the current one, or 0 if the node
restarts. -/
def floorOf (config : Configuration) : Event -> Nat
  | .restart _ => 0
  | event => (config.nodes event.actor).state.commitIndex

/-- The response to a prudent event advances the acting node. -/
theorem Commits.advances_respond (distinct : peers.Nodup) (commits : Commits peers config ledger)
    (simulates : Simulates peers config ledger) {event : Event} (member : event.actor ∈ peers)
    (enabled : config.Enabled event) (prudent : Prudent config event) {after : RaftNode}
    {actions : List Action} (response : config.respond peers event = .ok (after, actions))
    {later : Ledger Nat LogEntry}
    (passage : Passage peers ledger later event.actor (config.nodes event.actor) after) :
    Advances peers later event.actor (floorOf config event) after actions := by
  cases event with
  | tick id => exact passage.advances_tick response
  | propose id command =>
      rcases Outcome.map_eq_ok.mp response with ⟨⟨proposed, emitted⟩, ok, equal⟩
      cases equal
      exact passage.advances_propose distinct member ok
  | restart id =>
      cases response
      exact Passage.advances_restart
  | deliver packet =>
      have justified := simulates.packets packet enabled
      have credible := commits.packets packet enabled
      rcases packet with ⟨recipient, message⟩
      cases dispatch_handled response with
      | requestVote sender request => exact passage.advances_handleRequestVote
      | requestVoteResponse sender vote => exact passage.advances_handleRequestVoteResponse
      | appendEntries sender request returned =>
          exact passage.advances_handleAppendEntries justified credible prudent returned
      | appendEntriesResponse sender reply returned =>
          exact passage.advances_handleAppendEntriesResponse distinct member credible prudent returned

/-- What one prudent step does, seen from the ledger. -/
structure StepCommits (peers : List Nat) (config next : Configuration) (event : Event)
    (actions : List Action) (ledger later : Ledger Nat LogEntry) : Prop where
  steps : StepsOf peers event.actor ledger later
  simulates : Simulates peers next later
  commits : Commits peers next later
  monotone : forall id, event ≠ .restart id ->
    (config.nodes id).state.commitIndex ≤ (next.nodes id).state.commitIndex
  applied : forall index command, Action.applyEntry index command ∈ actions ->
    Applied peers later index command

/-- Every prudent step keeps commitment sound. -/
theorem Commits.step (distinct : peers.Nodup) (commits : Commits peers config ledger)
    (simulates : Simulates peers config ledger) (sound : SoundFor peers ledger) {event : Event}
    (prudent : Prudent config event) {next : Configuration} {actions : List Action}
    (stepped : config.step peers event = some (next, actions)) :
    Exists fun later => StepCommits peers config next event actions ledger later := by
  rcases simulates.step distinct sound stepped with ⟨later, steps, simulatesLater⟩
  have moves := steps.moves sound
  rcases Configuration.step_eq_some.mp stepped with ⟨member, enabled, node, response, rfl⟩
  have represented : Represents peers later event.actor node := by
    have own := simulatesLater.nodes event.actor member
    rw [Configuration.install_nodes_self] at own
    exact own
  have advances := commits.advances_respond distinct simulates member enabled prudent response
    ⟨simulates.nodes _ member, sound, commits.nodes _ member, steps, represented,
      simulatesLater.recorded⟩
  refine ⟨later, steps, simulatesLater, ⟨?_, ?_⟩, ?_, advances.applied⟩
  · apply Configuration.forall_install_nodes (fun id node => id ∈ peers -> Settled peers _ id node)
    · exact fun _ => advances.settled
    · intro id acting listed
      exact (commits.nodes id listed).frame moves acting
  · intro packet listed
    rcases Configuration.mem_install_network.mp listed with before | ⟨action, emitted, packed⟩
    · exact (commits.packets packet before).mono moves.toExtends
    · exact advances.sent action emitted packet packed
  · intro id running
    by_cases acting : id = event.actor
    · subst acting
      rw [Configuration.install_nodes_self]
      cases event with
      | restart id => exact absurd rfl running
      | tick id => exact advances.monotone
      | propose id command => exact advances.monotone
      | deliver packet => exact advances.monotone
    · rw [Configuration.install_nodes_of_ne config node actions acting]

theorem commits_initial (peers : List Nat) :
    Commits peers (.initial peers) (Ledger.blank : Ledger Nat LogEntry) where
  nodes id _ := ⟨rfl, Nat.le_refl _, Or.inl rfl, backed_of_not_leader (by rintro ⟨⟩)⟩
  packets packet listed := (List.not_mem_nil listed).elim

/-- The ledger of a prudent run. -/
structure CommitTrace (peers : List Nat) (history : List Transition) (config : Configuration)
    (ledger : Ledger Nat LogEntry) : Prop where
  sound : SoundFor peers ledger
  simulates : Simulates peers config ledger
  commits : Commits peers config ledger
  applied : forall index command, Action.applyEntry index command ∈ emitted history ->
    Applied peers ledger index command

theorem Run.commitTrace (distinct : peers.Nodup) {history : List Transition}
    (run : Run peers history config) (prudent : Meets Prudent history) :
    Exists fun ledger => CommitTrace peers history config ledger := by
  refine run.invariant (fun history config => Exists fun ledger =>
    CommitTrace peers history config ledger) ?_ ?_ prudent
  · rintro _ rfl
    exact ⟨Ledger.blank, sound_blank, simulates_initial peers, commits_initial peers,
      fun _ _ listed => (List.not_mem_nil listed).elim⟩
  · rintro history config event actions next _ ⟨ledger, trace⟩ prudent stepped
    rcases trace.commits.step distinct trace.simulates trace.sound prudent stepped with
      ⟨later, step⟩
    refine ⟨later, step.steps.sound trace.sound, step.simulates, step.commits, ?_⟩
    intro index command listed
    rcases List.mem_append.mp listed with now | before
    · exact step.applied index command now
    · exact (trace.applied index command before).mono (step.steps.moves trace.sound).toExtends

end Runs
end Cluster
end RaftStore
