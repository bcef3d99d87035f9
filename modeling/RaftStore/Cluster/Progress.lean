import RaftStore.Cluster.Election
import RaftStore.Raft.Specification

namespace RaftStore
namespace Cluster

open Raft Consensus Systems RaftNode

/-!
# Commands that can be committed

A leader whose log contains those of half of the other nodes can commit any command.
It replicates to them one after the other.  A follower whose log is a part of the
leader's is reached in at most two rounds: where the first one fails, the answer
names the end of that log, which is a point where the two logs meet.
-/

/-- The run can be continued by one proposal at the node, before and behind which only
the node lets time pass, and it and the team take in packets that are sent on the way. -/
def CanPropose (peers : List Nat) (id : Nat) (team : List Nat) (command : LogCommand)
    (history : List Transition) (config : Configuration) (Goal : Configuration -> Prop) : Prop :=
  Exists fun early => Exists fun ready => Exists fun emitted => Exists fun taken =>
    Exists fun late => Exists fun final =>
      Meets (Undertakes id team config.network.length) early ∧
      Meets (Undertakes id team config.network.length) late ∧
      Run peers (late ++ ⟨ready, .propose id command, emitted, taken⟩ :: (early ++ history))
        final ∧ Goal final

/-- The node has the whole log, knows of no later term, and has committed as much of
the log as lies below the floor. -/
structure Copies (term floor : Nat) (own : List LogEntry) (node : RaftNode) : Prop where
  whole : own <+: node.state.log.body
  behind : node.state.currentTerm ≤ term
  told : min floor own.length ≤ node.state.commitIndex

/-- The leader has replicated its whole log, which ends in its own term, to the nodes in
`done`, and told them of the entries below the floor.  Those in `rest` may follow it. -/
structure Drives (peers : List Nat) (leader : Nat) (own : List LogEntry) (floor : Nat)
    (done rest : List Nat) (config : Configuration) : Prop where
  role : (config.nodes leader).state.role = .leader
  log : (config.nodes leader).state.log = ⟨sentinel :: own⟩
  recent : lastTerm LogEntry.term own = (config.nodes leader).state.currentTerm
  backs : forall id, id ∈ rest -> Backs config (config.nodes leader).state.currentTerm own id
  copies : forall id, id ∈ done ->
    Copies (config.nodes leader).state.currentTerm floor own (config.nodes id)
  acked : forall id, id ∈ done -> Exists fun reported => own.length ≤ reported ∧
    (id, reported) ∈ (config.nodes leader).state.matchIndex
  known : floor ≤ (config.nodes leader).state.commitIndex
  committed : peers.length / 2 ≤ done.length ->
    own.length ≤ (config.nodes leader).state.commitIndex

section Counting

variable {node after : RaftNode} {own : List LogEntry} {done : List Nat}

/-! ## Counting replicas -/

/-- Every node that has acknowledged an index counts. -/
theorem le_replicationCount (apart : done.Nodup) {index : Nat}
    (acked : forall id, id ∈ done -> Exists fun reported => index ≤ reported ∧
      (id, reported) ∈ node.state.matchIndex) : done.length + 1 ≤ node.replicationCount index := by
  have listed : done ⊆
      (node.state.matchIndex.filter (fun pair => pair.2 >= index)).map Prod.fst := by
    intro id member
    rcases acked id member with ⟨reported, reaches, present⟩
    exact List.mem_map.mpr
      ⟨_, List.mem_filter.mpr ⟨present, decide_eq_true reaches⟩, rfl⟩
  have counted := (List.subperm_of_subset apart listed).length_le
  rw [List.length_map, ← List.countP_eq_length_filter] at counted
  rw [replicationCount, Nat.add_comm]
  exact Nat.add_le_add_left counted 1

/-- A log that ends in the term of the leader is committed with enough replicas. -/
theorem commits_of_acked (log : node.state.log = ⟨sentinel :: own⟩)
    (recent : lastTerm LogEntry.term own = node.state.currentTerm) (apart : done.Nodup)
    (acked : forall id, id ∈ done -> Exists fun reported => own.length ≤ reported ∧
      (id, reported) ∈ node.state.matchIndex)
    (enough : node.state.majorityCount ≤ done.length + 1) :
    own.length ≤ node.maybeAdvanceCommitIndex.1.state.commitIndex := by
  rw [maybeAdvanceCommitIndex_commitIndex]
  have lastIndex : node.state.log.lastIndex = own.length := by
    rw [RaftLog.lastIndex_eq_length_body, log, RaftLog.body_mk]
  by_cases fresh : node.state.commitIndex < own.length
  · have committable : node.Committable own.length := by
      refine ⟨fresh, Nat.le_of_eq lastIndex.symm, ?_,
        Nat.le_trans enough (le_replicationCount apart acked)⟩
      rw [termAt_eq_lastTerm log (Nat.le_refl _), List.take_length, recent]
    rcases node.isGreatestOr_scannedCommit with ⟨_, above⟩ | ⟨nothing, _⟩
    · exact above committable
    · exact absurd committable (Set.eq_empty_iff_forall_notMem.mp nothing _)
  · rcases node.scannedCommit_cases with same | committable
    · rw [same]
      exact Nat.le_of_not_lt fresh
    · exact Nat.le_trans (Nat.le_of_not_lt fresh) (Nat.le_of_lt committable.fresh)

end Counting

section Answers

variable {leader follower leader' follower' node after : RaftNode} {own other : List LogEntry}
  {next : Nat} {ledger : Ledger Nat LogEntry} {done : List Nat} {peers : List Nat}

/-! ## What an exchange leaves -/

/-- The answer to a request that is not stale. -/
structure Answers (follower follower' : RaftNode) (request : AppendEntriesRequest)
    (actions : List Action) (response : AppendEntriesResponse) : Prop where
  replied : actions.findSome? replyOf = some response
  sent : .sendAppendEntriesResponse request.leaderId response ∈ actions
  id_eq : follower'.state.id = follower.state.id
  term_eq : response.term = request.term
  current : follower'.state.currentTerm = request.term
  reports : response.matchIndex = some follower'.state.log.lastIndex
  follows : response.success = true ->
    min request.leaderCommit follower'.state.log.lastIndex ≤ follower'.state.commitIndex
  accepts : follower.state.log.termAt request.prevLogIndex = request.prevLogTerm ->
    response.success = true

/-- A follower has committed what the leader has, as far as its log goes. -/
theorem le_followCommit (node : RaftNode) (leaderCommit : Nat) :
    min leaderCommit (node.followCommit leaderCommit).1.state.log.lastIndex ≤
      (node.followCommit leaderCommit).1.state.commitIndex := by
  rw [followCommit_eq]
  split
  · exact Nat.le_refl _
  · next known => exact Nat.le_trans (Nat.min_le_left _ _) (Nat.le_of_not_lt known)

theorem handleAppendEntries_answers {request : AppendEntriesRequest} {actions : List Action}
    (handled : follower.handleAppendEntries request = .ok (follower', actions))
    (current : follower.state.currentTerm ≤ request.term) :
    Exists fun response => Answers follower follower' request actions response := by
  rcases handleAppendEntries_cases handled with
    ⟨stale, _⟩ | ⟨_, mismatch, rfl, rfl⟩ | ⟨_, _, inserted, ok, rfl, rfl⟩
  · exact absurd stale (Nat.not_lt_of_le current)
  · refine ⟨_, rfl, List.mem_singleton.mpr rfl, by simp, rfl, by simpa using current, by simp,
      fun accepted => ?_, fun passes => ?_⟩
    · cases accepted
    · exact absurd passes mismatch
  · have told := le_followCommit inserted request.leaderCommit
    rcases inserted.followCommit_shape request.leaderCommit with ⟨_, _, low, high, shape⟩
    rcases insertEntries_shape ok with ⟨_, _, rfl⟩
    rw [shape] at told ⊢
    have same : (follower.acceptLeader request).state.currentTerm = request.term := by
      simpa using current
    refine ⟨_, findSome_reply, List.mem_append_right _ (List.mem_singleton.mpr rfl), ?_, same, same,
      rfl, fun _ => told, fun _ => rfl⟩
    simp [withCommit]

/-- The two halves of a lossless exchange. -/
theorem Facing.exchanged (facing : Facing ledger leader follower own other next)
    (exchanged : exchange leader follower = .ok (leader', follower')) :
    Exists fun actions => Exists fun response => Exists fun ignored =>
      follower.handleAppendEntries (requestAt leader next) = .ok (follower', actions) ∧
      Answers follower follower' (requestAt leader next) actions response ∧
      leader.handleAppendEntriesResponse follower.state.id response = .ok (leader', ignored) := by
  unfold exchange at exchanged
  rw [facing.replicateToPeer] at exchanged
  rcases Outcome.bind_eq_ok.mp exchanged with ⟨⟨answering, actions⟩, handled, rest⟩
  rcases handleAppendEntries_answers handled facing.current with ⟨response, answers⟩
  simp only [answers.replied] at rest
  rcases Outcome.bind_eq_ok.mp rest with ⟨⟨taking, ignored⟩, taken, returned⟩
  cases returned
  rw [answers.id_eq] at taken
  exact ⟨actions, response, ignored, handled, answers, taken⟩

/-! ## What a leader knows afterwards -/

/-- The update of one key leaves the others alone. -/
theorem mem_updateFirst_of_ne {key id value : Nat} {update : Nat -> Outcome Nat}
    {pairs result : List (Nat × Nat)} (updated : updateFirst key update pairs = .ok result)
    (listed : (id, value) ∈ pairs) (different : id ≠ key) : (id, value) ∈ result := by
  induction pairs generalizing result with
  | nil => cases listed
  | cons head rest inductionHypothesis =>
      rcases head with ⟨first, current⟩
      unfold updateFirst at updated
      by_cases found : first = key
      · rw [if_pos found] at updated
        rcases Outcome.map_eq_ok.mp updated with ⟨_, _, rfl⟩
        rcases List.mem_cons.mp listed with equal | later
        · cases equal
          exact absurd found different
        · exact List.mem_cons_of_mem _ later
      · rw [if_neg found] at updated
        rcases Outcome.map_eq_ok.mp updated with ⟨newRest, computed, rfl⟩
        rcases List.mem_cons.mp listed with equal | later
        · rw [equal]
          exact List.mem_cons_self
        · exact List.mem_cons_of_mem _ (inductionHypothesis computed later)

/-- An update with a fixed value puts it under its key. -/
theorem mem_updateFirst_self {key value : Nat} {pairs result : List (Nat × Nat)}
    (updated : updateFirst key (fun _ => .ok value) pairs = .ok result)
    (present : key ∈ pairs.map Prod.fst) : (key, value) ∈ result := by
  induction pairs generalizing result with
  | nil => cases present
  | cons head rest inductionHypothesis =>
      rcases head with ⟨first, current⟩
      unfold updateFirst at updated
      by_cases found : first = key
      · rw [if_pos found] at updated
        rcases Outcome.map_eq_ok.mp updated with ⟨_, computed, rfl⟩
        cases computed
        rw [found]
        exact List.mem_cons_self
      · rw [if_neg found] at updated
        rcases Outcome.map_eq_ok.mp updated with ⟨newRest, computed, rfl⟩
        rcases List.mem_cons.mp present with same | later
        · exact absurd same.symm found
        · exact List.mem_cons_of_mem _ (inductionHypothesis computed later)

/-- A leader that has taken in an answer of no later term still leads, and knows what
it knew of all others. -/
structure Learns (node after : RaftNode) (sender : Nat) : Prop where
  role : after.state.role = node.state.role
  current : after.state.currentTerm = node.state.currentTerm
  log : after.state.log = node.state.log
  commits : node.state.commitIndex ≤ after.state.commitIndex
  others : forall id value, id ≠ sender -> (id, value) ∈ node.state.matchIndex ->
    (id, value) ∈ after.state.matchIndex

/-- What is committed stays committed. -/
theorem le_maybeAdvanceCommitIndex (node : RaftNode) :
    node.state.commitIndex ≤ node.maybeAdvanceCommitIndex.1.state.commitIndex := by
  rw [maybeAdvanceCommitIndex_eq]
  split
  · next advanced => exact Nat.le_of_lt advanced
  · exact Nat.le_refl _

/-- A leader learns from a success what was reported, and commits what it can. -/
theorem handleAppendEntriesResponse_learns {sender : Nat} {response : AppendEntriesResponse}
    {ignored : List Action} {reported : Nat}
    (taken : node.handleAppendEntriesResponse sender response = .ok (after, ignored))
    (leads : node.state.role = .leader) (bound : response.term ≤ node.state.currentTerm)
    (reports : response.matchIndex = some reported) :
    Learns node after sender ∧
    (response.success = true -> sender ∈ node.state.matchIndex.map Prod.fst ->
      Exists fun recorded => after = recorded.maybeAdvanceCommitIndex.1 ∧
        Learns node recorded sender ∧ recorded.state.peers = node.state.peers ∧
        (sender, reported) ∈ recorded.state.matchIndex) := by
  rcases handleAppendEntriesResponse_cases taken with
    ⟨follows, _⟩ | ⟨_, later, _⟩ | ⟨_, _, _, recorded, ok, equal⟩ | ⟨_, _, failed, ok, _⟩
  · exact absurd leads follows
  · exact absurd later (Nat.not_lt_of_le bound)
  · rcases recordMatch_eq_ok ok with ⟨matchIndex, nextIndex, rfl, ⟨nothing, _⟩ |
      ⟨value, same, matched, _⟩⟩
    · exact (Option.some_ne_none _ (reports.symm.trans nothing)).elim
    · cases reports.symm.trans same
      have learns : Learns node { node with state := { node.state with
          matchIndex := matchIndex, nextIndex := nextIndex } } sender :=
        ⟨rfl, rfl, rfl, Nat.le_refl _,
          fun _ _ different listed => mem_updateFirst_of_ne matched listed different⟩
      refine ⟨?_, fun _ present => ⟨_, congrArg Prod.fst equal, learns, rfl,
        mem_updateFirst_self matched present⟩⟩
      have forward := le_maybeAdvanceCommitIndex { node with state := { node.state with
        matchIndex := matchIndex, nextIndex := nextIndex } }
      rcases maybeAdvanceCommitIndex_shape { node with state := { node.state with
        matchIndex := matchIndex, nextIndex := nextIndex } } with ⟨_, _, _, _, shape⟩
      rw [shape] at equal forward
      cases equal
      exact ⟨rfl, rfl, rfl, forward, learns.others⟩
  · rcases recordRejection_eq_ok ok with ⟨nextIndex, rfl, _⟩
    refine ⟨⟨rfl, rfl, rfl, Nat.le_refl _, fun _ _ _ listed => listed⟩, fun accepted _ => ?_⟩
    rw [failed] at accepted
    cases accepted

/-- The heartbeat countdown plays no part in an exchange. -/
theorem Facing.rested (facing : Facing ledger leader follower own other next) :
    Facing ledger (rested leader) follower own other next :=
  ⟨facing.leaderLog, facing.followerLog, facing.ownRooted, facing.otherRooted, facing.ownFits,
    facing.otherFits, facing.role, facing.current, facing.probe⟩

/-- The leader has taken in that a follower has the whole log. -/
structure Credits (leader leader' : RaftNode) (own : List LogEntry) (id : Nat) : Prop where
  learns : Learns leader leader' id
  commits : Exists fun recorded => leader' = recorded.maybeAdvanceCommitIndex.1 ∧
    Learns leader recorded id ∧ recorded.state.peers = leader.state.peers ∧
    Exists fun reported => own.length ≤ reported ∧ (id, reported) ∈ recorded.state.matchIndex

/-- Where the logs meet, a round brings the whole log over, and the leader knows it. -/
theorem Facing.round_of_meet (facing : Facing ledger leader follower own other next)
    (positive : 0 < next) (meet : MeetAt leader.state.log follower.state.log (next - 1))
    (counted : follower.state.id ∈ leader.state.matchIndex.map Prod.fst) :
    Exists fun leader' => Exists fun follower' =>
      exchange leader follower = .ok (leader', follower') ∧
      Copies leader.state.currentTerm leader.state.commitIndex own follower' ∧
      Credits leader leader' own follower.state.id := by
  rcases facing.exchange_of_meet positive meet with ⟨leader', follower', done, _, covers⟩
  rcases facing.exchanged done with ⟨_, response, _, _, answers, taken⟩
  have bound : response.term ≤ leader.state.currentTerm := Nat.le_of_eq answers.term_eq
  rcases handleAppendEntriesResponse_learns taken facing.role bound answers.reports with
    ⟨learns, succeeds⟩
  have accepted := answers.accepts meet.2.2.symm
  rcases succeeds accepted counted with ⟨recorded, equal, keeps, peers, present⟩
  have reaches : own.length ≤ follower'.state.log.lastIndex := by
    rw [RaftLog.lastIndex_eq_length_body]
    exact covers.length_le
  have told : min leader.state.commitIndex own.length ≤ follower'.state.commitIndex :=
    Nat.le_trans (min_le_min_left _ reaches) (answers.follows accepted)
  exact ⟨leader', follower', done, ⟨covers, Nat.le_of_eq answers.current, told⟩, learns, recorded,
    equal, keeps, peers, _, reaches, present⟩

/-- Where they do not meet, a round finds the end of the follower's log. -/
theorem Facing.round_of_not_meet (facing : Facing ledger leader follower own other next)
    (sound : SoundFor peers ledger) (positive : 0 < next)
    (apart : ¬ MeetAt leader.state.log follower.state.log (next - 1)) :
    Exists fun leader' => Exists fun follower' =>
      exchange leader follower = .ok (leader', follower') ∧
      Facing ledger leader' follower' own other (other.length + 1) ∧
      Learns leader leader' follower.state.id := by
  rcases facing.exchange_of_not_meet sound positive apart with ⟨leader', follower', done, stuck⟩
  rcases facing.exchanged done with ⟨_, response, _, _, answers, taken⟩
  have bound : response.term ≤ leader.state.currentTerm := Nat.le_of_eq answers.term_eq
  exact ⟨leader', follower', done, stuck,
    (handleAppendEntriesResponse_learns taken facing.role bound answers.reports).1⟩

end Answers

section Replication

variable {peers team : List Nat} {history : List Transition} {config final : Configuration}
  {leader id next floor old : Nat} {own other : List LogEntry} {done rest quorum : List Nat}
  {ledger : Ledger Nat LogEntry} {leader' follower' : RaftNode}

/-! ## Replicating to the others -/

/-- The two nodes have moved on, and no other has. -/
structure Exchanged (config : Configuration) (leader id : Nat) (leader' follower' : RaftNode)
    (final : Configuration) : Prop where
  leads : final.nodes leader = leader'
  follows : final.nodes id = follower'
  others : forall other, other ≠ leader -> other ≠ id -> final.nodes other = config.nodes other

/-- A lossless round between a leader and a follower can take place. -/
theorem Run.can_exchange (distinct : peers.Nodup) (run : Run peers history config)
    (since : old ≤ config.network.length) (within : team ⊆ peers) (member : leader ∈ team)
    (idMember : id ∈ team) (different : id ≠ leader)
    (facing : Facing ledger (config.nodes leader) (config.nodes id) own other next)
    (exchanged : exchange (rested (config.nodes leader)) (config.nodes id) =
      .ok (leader', follower')) :
    (system peers).CanReach (Undertakes leader team old) history
      (Exchanged config leader id leader' follower') := by
  rcases run.traces distinct with ⟨ledger', traces⟩
  have represents := traces.simulates.nodes leader (within member)
  have sameId := (traces.simulates.nodes id (within idMember)).id_eq
  rcases facing.rested.exchanged exchanged with ⟨actions, response, _, handled, answers, taken⟩
  have requested := facing.replicateToPeer
  rw [sameId] at requested taken
  have asks : .sendAppendEntries id (requestAt (config.nodes leader) next) ∈
      (config.nodes leader).sendHeartbeats :=
    List.mem_filterMap.mpr ⟨id, represents.mem_otherPeers (within idMember) different, requested⟩
  refine run.can_go_on since (Run.can_greet run within member facing.role) ?_
  intro longer second greeting begun greeted
  have sent := greeted.sent since asks rfl
  have unmoved := greeted.rest different
  rw [← unmoved] at handled
  refine (Run.can_deliver greeting within idMember sent handled).trans ?_
  intro longest third answering answered
  have reply := answered.sent begun answers.sent rfl
  change ⟨(config.nodes leader).state.id, _⟩ ∈ third.network.drop old at reply
  rw [represents.id_eq] at reply
  have same : third.nodes leader = rested (config.nodes leader) := by
    rw [answered.rest different.symm, greeted.self]
  rw [← same] at taken
  refine (Run.can_deliver answering within member reply taken).mono ?_
  intro final moved
  refine ⟨moved.self, ?_, fun other notLeader notId => ?_⟩
  · rw [moved.rest different, answered.self]
  · rw [moved.rest notLeader, answered.rest notId, greeted.rest notLeader]

/-- The other nodes the leader is concerned with have not moved. -/
theorem Exchanged.unmoved (exchanged : Exchanged config leader id leader' follower' final)
    (apart : (leader :: (done ++ id :: rest)).Nodup) {waiting : Nat}
    (listed : waiting ∈ done ++ rest) :
    waiting ≠ id ∧ final.nodes waiting = config.nodes waiting := by
  have front := (List.Perm.cons leader List.perm_middle).nodup_iff.mp apart
  have behind := (List.nodup_cons.mp front).2
  have unequal : waiting ≠ id := by
    rintro rfl
    exact (List.nodup_cons.mp behind).1 listed
  have notLeader : waiting ≠ leader := by
    rintro rfl
    exact (List.nodup_cons.mp front).1 (List.mem_cons_of_mem _ listed)
  exact ⟨unequal, exchanged.others waiting notLeader unequal⟩

/-- The leader still holds what it has to replicate, and the others still may follow
it or have it already. -/
theorem Drives.frame (drives : Drives peers leader own floor done (id :: rest) config)
    (apart : (leader :: (done ++ id :: rest)).Nodup)
    (exchanged : Exchanged config leader id leader' follower' final)
    (learns : Learns (rested (config.nodes leader)) leader' id) :
    (final.nodes leader).state.role = .leader ∧
    (final.nodes leader).state.log = ⟨sentinel :: own⟩ ∧
    lastTerm LogEntry.term own = (final.nodes leader).state.currentTerm ∧
    (forall waiting, waiting ∈ rest ->
      Backs final (final.nodes leader).state.currentTerm own waiting) ∧
    floor ≤ (final.nodes leader).state.commitIndex ∧
    (forall waiting, waiting ∈ done ->
      Copies (final.nodes leader).state.currentTerm floor own (final.nodes waiting)) ∧
    forall waiting, waiting ∈ done -> Exists fun reported => own.length ≤ reported ∧
      (waiting, reported) ∈ (final.nodes leader).state.matchIndex := by
  rw [exchanged.leads, learns.current]
  refine ⟨learns.role.trans drives.role, learns.log.trans drives.log, drives.recent, ?_,
    Nat.le_trans drives.known learns.commits, ?_, ?_⟩
  · intro waiting listed
    rcases exchanged.unmoved apart (List.mem_append_right _ listed) with ⟨_, same⟩
    rcases drives.backs waiting (List.mem_cons_of_mem _ listed) with ⟨behind, part⟩
    rw [← same] at behind part
    exact ⟨behind, part⟩
  · intro waiting listed
    rw [(exchanged.unmoved apart (List.mem_append_left _ listed)).2]
    exact drives.copies waiting listed
  · intro waiting listed
    rcases drives.acked waiting listed with ⟨reported, reaches, present⟩
    have different := (exchanged.unmoved apart (List.mem_append_left _ listed)).1
    exact ⟨reported, reaches, learns.others waiting reported different present⟩

/-- After a round that fails the leader drives on as before. -/
theorem Drives.retry (drives : Drives peers leader own floor done (id :: rest) config)
    (apart : (leader :: (done ++ id :: rest)).Nodup)
    (size : (done ++ id :: rest).length = peers.length / 2)
    (exchanged : Exchanged config leader id leader' follower' final)
    (learns : Learns (rested (config.nodes leader)) leader' id)
    (facing : Facing ledger leader' follower' own other next) (part : other <+: own) :
    Drives peers leader own floor done (id :: rest) final := by
  rcases drives.frame apart exchanged learns with ⟨role, log, recent, backs, known, copies, acked⟩
  refine ⟨role, log, recent, ?_, copies, acked, known, fun enough => ?_⟩
  · intro waiting listed
    rcases List.mem_cons.mp listed with rfl | later
    · have current := facing.current
      rw [← exchanged.leads, ← exchanged.follows] at current
      refine ⟨current, ?_⟩
      rw [exchanged.follows, facing.followerLog]
      exact part
    · exact backs waiting later
  · rw [List.length_append, List.length_cons] at size
    omega

/-- After a round that succeeds one node more has the log. -/
theorem Drives.advance (drives : Drives peers leader own floor done (id :: rest) config)
    (apart : (leader :: (done ++ id :: rest)).Nodup)
    (majority : (config.nodes leader).state.majorityCount = peers.length / 2 + 1)
    (exchanged : Exchanged config leader id leader' follower' final)
    (copied : Copies (config.nodes leader).state.currentTerm
      (config.nodes leader).state.commitIndex own follower')
    (credits : Credits (rested (config.nodes leader)) leader' own id) :
    Drives peers leader own floor (id :: done) rest final := by
  rcases drives.frame apart exchanged credits.learns with
    ⟨role, log, recent, backs, known, copies, acked⟩
  rcases credits.commits with ⟨recorded, equal, learns, peersEq, reported, reaches, present⟩
  have everybody : forall waiting, waiting ∈ id :: done -> Exists fun reported =>
      own.length ≤ reported ∧ (waiting, reported) ∈ recorded.state.matchIndex := by
    intro waiting listed
    rcases List.mem_cons.mp listed with rfl | earlier
    · exact ⟨reported, reaches, present⟩
    · rcases drives.acked waiting earlier with ⟨older, reaches, before⟩
      have different := (exchanged.unmoved apart (List.mem_append_left _ earlier)).1
      exact ⟨older, reaches, learns.others waiting older different before⟩
  have tables : (final.nodes leader).state.matchIndex = recorded.state.matchIndex := by
    rcases recorded.maybeAdvanceCommitIndex_shape with ⟨_, _, _, _, shape⟩
    rw [exchanged.leads, equal, shape]
    rfl
  refine ⟨role, log, recent, backs, ?_, ?_, known, fun enough => ?_⟩
  · intro waiting listed
    rcases List.mem_cons.mp listed with rfl | earlier
    · rw [exchanged.follows, exchanged.leads, credits.learns.current]
      exact ⟨copied.whole, copied.behind,
        Nat.le_trans (min_le_min_right _ drives.known) copied.told⟩
    · exact copies waiting earlier
  · rw [tables]
    exact everybody
  · have distinct : (id :: done).Nodup := by
      have front := List.perm_middle.nodup_iff.mp (List.nodup_cons.mp apart).2
      exact front.sublist ((List.sublist_append_left done rest).cons_cons id)
    rw [exchanged.leads, equal]
    refine commits_of_acked (learns.log.trans drives.log) ?_ distinct everybody ?_
    · rw [learns.current]
      exact drives.recent
    · rw [RaftState.majorityCount, peersEq]
      exact Nat.le_trans (Nat.le_of_eq majority) (Nat.succ_le_succ enough)

/-- A follower whose log meets the leader's at the probe is reached in one round. -/
theorem Run.can_replicate_now (distinct : peers.Nodup) (run : Run peers history config)
    (since : old ≤ config.network.length) (within : team ⊆ peers) (member : leader ∈ team)
    (idMember : id ∈ team)
    (apart : (leader :: (done ++ id :: rest)).Nodup)
    (drives : Drives peers leader own floor done (id :: rest) config)
    (facing : Facing ledger (config.nodes leader) (config.nodes id) own other next)
    (positive : 0 < next)
    (meet : MeetAt (config.nodes leader).state.log (config.nodes id).state.log (next - 1)) :
    (system peers).CanReach (Undertakes leader team old) history
      (Drives peers leader own floor (id :: done) rest) := by
  rcases run.traces distinct with ⟨ledger', traces⟩
  have represents := traces.simulates.nodes leader (within member)
  have sameId := (traces.simulates.nodes id (within idMember)).id_eq
  have different : id ≠ leader := by
    rintro rfl
    exact (List.nodup_cons.mp apart).1 (List.mem_append_right _ List.mem_cons_self)
  have counted : (config.nodes id).state.id ∈
      (config.nodes leader).state.matchIndex.map Prod.fst := by
    have counts := ((Run.solitary run leader).1.paced.leads drives.role).counts
    rw [counts, sameId]
    exact represents.mem_otherPeers (within idMember) different
  rcases facing.rested.round_of_meet positive meet counted with
    ⟨leader', follower', round, copied, credits⟩
  rw [sameId] at credits
  exact (Run.can_exchange distinct run since within member idMember different facing round).mono
    fun final exchanged => drives.advance apart represents.majorityCount_eq exchanged copied credits

/-- A follower whose log is a part of the leader's is reached in two rounds at most. -/
theorem Run.can_replicate (distinct : peers.Nodup) (run : Run peers history config)
    (since : old ≤ config.network.length) (within : team ⊆ peers) (member : leader ∈ team)
    (idMember : id ∈ team)
    (apart : (leader :: (done ++ id :: rest)).Nodup)
    (size : (done ++ id :: rest).length = peers.length / 2)
    (drives : Drives peers leader own floor done (id :: rest) config) :
    (system peers).CanReach (Undertakes leader team old) history
      (Drives peers leader own floor (id :: done) rest) := by
  have different : id ≠ leader := by
    rintro rfl
    exact (List.nodup_cons.mp apart).1 (List.mem_append_right _ List.mem_cons_self)
  rcases drives.backs id List.mem_cons_self with ⟨current, part⟩
  rcases run.facing distinct (within member) (within idMember) different drives.role current with
    ⟨ledger, next, sound, facing, _, positive⟩
  cases drives.log.symm.trans facing.leaderLog
  rw [facing.followerLog, RaftLog.body_mk] at part
  by_cases meet : MeetAt (config.nodes leader).state.log (config.nodes id).state.log (next - 1)
  · exact Run.can_replicate_now distinct run since within member idMember apart drives facing
      positive meet
  · rcases facing.rested.round_of_not_meet sound positive meet with
      ⟨leader', follower', round, stuck, learns⟩
    rcases run.traces distinct with ⟨ledger', traces⟩
    rw [(traces.simulates.nodes id (within idMember)).id_eq] at learns
    refine run.can_go_on since
      (Run.can_exchange distinct run since within member idMember different facing round) ?_
    intro longer second continued later exchanged
    have retried := drives.retry apart size exchanged learns stuck part
    rw [← exchanged.leads, ← exchanged.follows] at stuck
    refine Run.can_replicate_now distinct continued later within member idMember apart retried stuck
      (Nat.succ_pos _) ?_
    -- now the probe is at the end of the follower's log
    have inside := part.length_le
    rw [Nat.add_sub_cancel]
    refine ⟨by rw [stuck.lastIndex_leader]; exact inside,
      Nat.le_of_eq stuck.lastIndex_follower.symm, ?_⟩
    rw [termAt_eq_lastTerm stuck.leaderLog inside,
      termAt_eq_lastTerm stuck.followerLog (Nat.le_refl _), List.take_length]
    exact congrArg (lastTerm LogEntry.term) (List.prefix_iff_eq_take.mp part).symm

/-- A leader can bring its log to all that may follow it, and then it has committed it. -/
theorem Run.can_replicate_all (distinct : peers.Nodup) (run : Run peers history config)
    (since : old ≤ config.network.length) (within : team ⊆ peers) (member : leader ∈ team)
    (among : forall id, id ∈ done ++ rest -> id ∈ team)
    (apart : (leader :: (done ++ rest)).Nodup) (size : (done ++ rest).length = peers.length / 2)
    (drives : Drives peers leader own floor done rest config) :
    (system peers).CanReach (Undertakes leader team old) history
      (Exists fun all => all.Perm (done ++ rest) ∧
      Drives peers leader own floor all [] ·) := by
  induction rest generalizing done history config with
  | nil =>
      rw [List.append_nil]
      exact .here run ⟨done, List.Perm.refl _, drives⟩
  | cons id rest inductionHypothesis =>
      have idMember := among id (List.mem_append_right _ List.mem_cons_self)
      refine run.can_go_on since
        (Run.can_replicate distinct run since within member idMember apart size drives) ?_
      intro longer next continued later further
      have same : (id :: done ++ rest).Perm (done ++ id :: rest) := List.perm_middle.symm
      refine (inductionHypothesis continued later
        (fun other listed => among other (same.mem_iff.mp listed))
        ((same.cons leader).nodup_iff.mpr apart) (same.length_eq.trans size) further).mono ?_
      rintro final ⟨all, perm, drives⟩
      exact ⟨all, perm.trans same, drives⟩

/-! ## Proposing -/

/-- A leader with room in its log takes a command in. -/
theorem Leads.proposes (leads : Leads leader own quorum config) (command : LogCommand)
    (room : own.length + 2 ≤ vecCapacity) : Exists fun emitted =>
      (config.nodes leader).propose command = .ok
        (((config.nodes leader).withEntry command).maybeAdvanceCommitIndex.1, some emitted) := by
  have safe : (Call.propose command).Safe (config.nodes leader) := by
    intro _
    rw [leads.log]
    exact room
  rcases (propose_returns command).mpr safe with ⟨⟨after, emitted⟩, proposed⟩
  rcases propose_cases proposed with ⟨follows, _⟩ | ⟨_, _, rfl, rfl⟩
  · exact absurd leads.role follows
  · exact ⟨_, proposed⟩

/-- Then it has the command to replicate. -/
theorem Leads.drives (leads : Leads leader own quorum config) (apart : (leader :: quorum).Nodup)
    (majority : (config.nodes leader).state.majorityCount = peers.length / 2 + 1)
    {command : LogCommand} {actions : List Action}
    (moved : Moved config leader
      ((config.nodes leader).withEntry command).maybeAdvanceCommitIndex.1 actions final) :
    Drives peers leader (own ++ [.mk (config.nodes leader).state.currentTerm command]) 0 [] quorum
      final := by
  have log : ((config.nodes leader).withEntry command).state.log =
      ⟨sentinel :: (own ++ [.mk (config.nodes leader).state.currentTerm command])⟩ := by
    change RaftLog.mk ((config.nodes leader).state.log.entries ++ _) = _
    rw [leads.log]
    rfl
  have recent : lastTerm LogEntry.term
      (own ++ [.mk (config.nodes leader).state.currentTerm command]) =
        ((config.nodes leader).withEntry command).state.currentTerm := lastTerm_concat _ _
  have committed : peers.length / 2 ≤ ([] : List Nat).length ->
      (own ++ [LogEntry.mk (config.nodes leader).state.currentTerm command]).length ≤
        ((config.nodes leader).withEntry command).maybeAdvanceCommitIndex.1.state.commitIndex := by
    intro enough
    refine commits_of_acked log recent List.nodup_nil
      (fun _ listed => (List.not_mem_nil listed).elim) ?_
    exact Nat.le_trans (Nat.le_of_eq majority) (Nat.succ_le_succ enough)
  have here := moved.self
  rcases ((config.nodes leader).withEntry command).maybeAdvanceCommitIndex_shape with
    ⟨_, _, _, _, shape⟩
  rw [shape] at here committed
  change final.nodes leader = _ at here
  refine ⟨by rw [here]; exact leads.role, by rw [here]; exact log, by rw [here]; exact recent, ?_,
    fun _ listed => (List.not_mem_nil listed).elim,
    fun _ listed => (List.not_mem_nil listed).elim, Nat.zero_le _, by rw [here]; exact committed⟩
  rw [here]
  intro id listed
  have different : id ≠ leader := by
    rintro rfl
    exact (List.nodup_cons.mp apart).1 listed
  exact ((leads.backs id listed).moved moved different).mono (Nat.le_refl _)
    (List.prefix_append _ _)

/-! ## Catching up -/

/-- A log that contains the whole log of a leader, which ends in the leader's term, has no
more than it, unless its owner knows of a later term. -/
theorem Run.isPrefix_of_leader (distinct : peers.Nodup) (run : Run peers history config)
    (member : leader ∈ peers) (idMember : id ∈ peers)
    (role : (config.nodes leader).state.role = .leader)
    (log : (config.nodes leader).state.log = ⟨sentinel :: own⟩)
    (recent : lastTerm LogEntry.term own = (config.nodes leader).state.currentTerm)
    (behind : (config.nodes id).state.currentTerm ≤ (config.nodes leader).state.currentTerm)
    (whole : own <+: (config.nodes id).state.log.body) :
    (config.nodes id).state.log.body <+: own := by
  rcases run.traces distinct with ⟨ledger, traces⟩
  have represents := traces.simulates.nodes leader member
  have represents' := traces.simulates.nodes id idMember
  cases log.symm.trans represents.log_eq
  rw [represents'.log_eq, RaftLog.body_mk] at whole ⊢
  rcases represents.reign_of_leader traces.sound role with ⟨r, reigns, _, same⟩
  have rooted := traces.sound.log_rooted id
  have ordered := traces.sound.ordered_of_rooted rooted
  rcases eq_nil_or_endsIn LogEntry.term (ledger.log id) with empty | ⟨init, entry, equal, final⟩
  · rw [empty]
    exact List.nil_prefix
  · have current : entry.term = (config.nodes leader).state.currentTerm := by
      have upper := traces.sound.log_bound id entry (equal ▸ List.mem_concat_self)
      rw [← represents'.term_eq] at upper
      refine Nat.le_antisymm (Nat.le_trans upper behind) ?_
      rw [← recent, final]
      rcases ordered.upToDate whole with later | ⟨even, _⟩
      · exact Nat.le_of_lt later
      · exact Nat.le_of_eq even
    rw [equal] at rooted ⊢
    rcases rooted init entry List.prefix_rfl with ⟨r', reigns', part⟩
    rw [current, reigns] at reigns'
    cases reigns'
    rw [same]
    exact part

/-- A leader that has committed its whole log can bring all that have it to do so too. -/
theorem Run.can_inform (distinct : peers.Nodup) (run : Run peers history config)
    (since : old ≤ config.network.length) (within : team ⊆ peers) (member : leader ∈ team)
    (among : forall id, id ∈ done -> id ∈ team)
    (apart : (leader :: done).Nodup) (size : done.length = peers.length / 2)
    (drives : Drives peers leader own floor done [] config) :
    (system peers).CanReach (Undertakes leader team old) history (Exists fun all => all.Perm done ∧
      Drives peers leader own own.length all [] ·) := by
  have committed := drives.committed (Nat.le_of_eq size.symm)
  have again : Drives peers leader own own.length [] done config := by
    refine ⟨drives.role, drives.log, drives.recent, fun id listed => ?_,
      fun _ listed => (List.not_mem_nil listed).elim,
      fun _ listed => (List.not_mem_nil listed).elim, committed, fun _ => committed⟩
    have copied := drives.copies id listed
    exact ⟨copied.behind, Run.isPrefix_of_leader distinct run (within member)
      (within (among id listed)) drives.role drives.log drives.recent copied.behind copied.whole⟩
  exact Run.can_replicate_all distinct run since within member
    (show forall id, id ∈ [] ++ done -> id ∈ team from among)
    (show (leader :: ([] ++ done)).Nodup from apart) size again

/-- A leader can bring all that may follow it to commit its whole log. -/
theorem Run.can_spread (distinct : peers.Nodup) (run : Run peers history config)
    (since : old ≤ config.network.length) (within : team ⊆ peers) (member : leader ∈ team)
    (among : forall id, id ∈ quorum -> id ∈ team) (apart : (leader :: quorum).Nodup)
    (size : quorum.length = peers.length / 2)
    (drives : Drives peers leader own floor [] quorum config) :
    (system peers).CanReach (Undertakes leader team old) history
      (Exists fun all => all.Perm quorum ∧
      Drives peers leader own own.length all [] ·) := by
  refine run.can_go_on since (Run.can_replicate_all distinct run since within member
    (fun id listed => among id (List.nil_append quorum ▸ listed))
    (List.nil_append quorum ▸ apart) (List.nil_append quorum ▸ size) drives) ?_
  rintro longer next continued later ⟨all, same, replicated⟩
  rw [List.nil_append] at same
  refine (Run.can_inform distinct continued later within member
    (fun id listed => among id (same.mem_iff.mp listed)) ((same.cons leader).nodup_iff.mpr apart)
    (same.length_eq.trans size) replicated).mono ?_
  rintro final ⟨others, perm, informed⟩
  exact ⟨others, perm.trans same, informed⟩

/-- The command has been committed by the node, behind what it had in its log, and the
others of the majority have that log and have committed all of it too. -/
structure Establishes (candidate : Nat) (own : List LogEntry) (command : LogCommand)
    (quorum : List Nat) (config : Configuration) : Prop where
  role : (config.nodes candidate).state.role = .leader
  log : (config.nodes candidate).state.log.body =
    own ++ [⟨(config.nodes candidate).state.currentTerm, command⟩]
  committed : forall id, id ∈ candidate :: quorum ->
    own.length + 1 ≤ (config.nodes id).state.commitIndex
  replicated : forall id, id ∈ quorum ->
    (config.nodes candidate).state.log.body <+: (config.nodes id).state.log.body

theorem Drives.establishes {term : Nat} {command : LogCommand} {all : List Nat}
    (drives : Drives peers leader (own ++ [⟨term, command⟩]) (own.length + 1) all [] final)
    (same : all.Perm quorum) : Establishes leader own command quorum final := by
  have current : term = (final.nodes leader).state.currentTerm := by
    have recent := drives.recent
    rw [lastTerm_concat] at recent
    exact recent
  have body : (final.nodes leader).state.log.body = own ++ [⟨term, command⟩] := by
    rw [drives.log, RaftLog.body_mk]
  refine ⟨drives.role, current ▸ body, fun id listed => ?_, fun id listed => ?_⟩
  · rcases List.mem_cons.mp listed with rfl | following
    · exact drives.known
    · have told := (drives.copies id (same.mem_iff.mpr following)).told
      rw [List.length_append, List.length_singleton, min_self] at told
      exact told
  · rw [body]
    exact (drives.copies id (same.mem_iff.mpr listed)).whole

/-- **Nothing blocks the cluster for good.**  From every state that the cluster can
reach, whatever was lost, delayed or restarted before, a node that has all of the
logs of half of the others can still come to lead and have any command committed,
by itself and by them.  The other half need not take part, no packet from before need
arrive, and nothing but this one proposal comes from outside. -/
theorem progress_possible (distinct : peers.Nodup) (run : Run peers history config)
    {candidate : Nat} (member : candidate ∈ peers) (among : forall id, id ∈ quorum -> id ∈ peers)
    (apart : (candidate :: quorum).Nodup) (size : quorum.length = peers.length / 2)
    (parts : forall id, id ∈ quorum ->
      (config.nodes id).state.log.body <+: (config.nodes candidate).state.log.body)
    (room : forall id, id ∈ candidate :: quorum ->
      (config.nodes id).state.currentTerm + 1 < wordSize)
    (space : (config.nodes candidate).state.log.entries.length + 1 ≤ vecCapacity)
    (command : LogCommand) :
    CanPropose peers candidate (candidate :: quorum) command history config
      (Establishes candidate (config.nodes candidate).state.log.body command quorum) := by
  rcases run.traces distinct with ⟨ledger, traces⟩
  have log := (traces.simulates.nodes candidate member).log_eq
  rw [log] at parts space ⊢
  have within : candidate :: quorum ⊆ peers := List.cons_subset.mpr ⟨member, among⟩
  have here : candidate ∈ candidate :: quorum := List.mem_cons_self
  have behind : forall id, id ∈ quorum -> id ∈ candidate :: quorum := fun _ =>
    List.mem_cons_of_mem _
  rcases run.keeping (Nat.le_refl config.network.length) (Run.can_lead distinct run
    (Nat.le_refl _) within here behind apart size log room parts) with
    ⟨early, ready, continued, meets, since, leads⟩
  rcases Run.traces distinct continued with ⟨ledger', traces'⟩
  have majority := (traces'.simulates.nodes candidate member).majorityCount_eq
  rcases leads.proposes command space with ⟨emitted, proposed⟩
  have moved := moved_install ready candidate
    ((ready.nodes candidate).withEntry command).maybeAdvanceCommitIndex.1 emitted
  have drives := leads.drives apart majority moved
  have stepped : ready.step peers (.propose candidate command) =
      some (ready.install candidate
        ((ready.nodes candidate).withEntry command).maybeAdvanceCommitIndex.1 emitted, emitted) :=
    Configuration.step_eq_some.mpr
      ⟨member, True.intro, _, Outcome.map_eq_ok.mpr ⟨_, proposed, rfl⟩, rfl⟩
  have latest := Nat.le_trans since (network_grows stepped).length_le
  rcases Run.can_spread distinct (continued.next stepped) latest within here behind apart size
    drives with ⟨late, final, whole, further, all, same, replicated⟩
  rw [List.length_append] at replicated
  exact ⟨early, ready, emitted, _, late, final, meets, further, whole, replicated.establishes same⟩

set_option maxRecDepth 100000 in
/-- In the schedule with two leaders, the older one does not know that it has been
replaced, and node 3 has nothing of its log.  With node 3 it can commit again. -/
theorem progress_possible_succession :
    Exists fun history => Exists fun final => Run [1, 2, 3] history final ∧
      (final.nodes 1).state.role = .leader ∧
      (final.nodes 1).state.currentTerm < (final.nodes 3).state.currentTerm ∧
      CanPropose [1, 2, 3] 1 [1, 3] (.put "k" "c") history final
        (Establishes 1 (final.nodes 1).state.log.body (.put "k" "c") [3]) := by
  have checked : (execute [1, 2, 3] succession).any (fun result =>
      decide ((result.2.nodes 1).state.role = .leader ∧
        (result.2.nodes 1).state.currentTerm < (result.2.nodes 3).state.currentTerm ∧
        (result.2.nodes 3).state.currentTerm = 2 ∧
        (result.2.nodes 3).state.log.body = [] ∧
        (result.2.nodes 1).state.log.entries.length + 1 ≤ vecCapacity)) = true := by
    decide +kernel
  rcases exists_run checked with ⟨history, final, run, holds⟩
  rcases of_decide_eq_true holds with ⟨leads, later, current, empty, space⟩
  refine ⟨history, final, run, leads, later, ?_⟩
  refine progress_possible (by decide) run (by decide) (by decide) (by decide) (by decide) ?_ ?_
    space (.put "k" "c")
  · intro id listed
    rw [List.mem_singleton.mp listed, empty]
    exact List.nil_prefix
  · have small : 2 + 1 < wordSize := by decide
    intro id listed
    rcases List.mem_cons.mp listed with rfl | other
    · simp only at later current
      omega
    · rw [List.mem_singleton.mp other, current]
      exact small

end Replication
end Cluster
end RaftStore
