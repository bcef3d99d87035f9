import RaftStore.Cluster.Calls
import RaftStore.Raft.Effects

namespace RaftStore
namespace Cluster

open Raft Consensus Systems RaftNode

/-!
# Terms along the logs

The election restriction compares the last terms of two logs, and the consistency
check takes the term 0 for an absent entry.  Both mean what they should because the
terms of a log never decrease, are never 0 behind the sentinel, and never exceed the
term of the node.

This is carried by the requests as well: they are cut from the log of a leader, so
that their entries continue the log of whoever accepts them.  It does not depend on
who is elected, and holds for any list of peers.
-/

/-- The terms of a log start at 1 behind the sentinel, do not decrease, and go up to
the given one at most. -/
structure Graded (term : Nat) (log : RaftLog) : Prop where
  kept : log.HasSentinel
  positive : forall entry, entry ∈ log.body -> 1 ≤ entry.term
  ordered : Ordered LogEntry.term log.body
  bound : forall entry, entry ∈ log.body -> entry.term ≤ term

/-- A request that may have been cut from the log of a leader of its term. -/
structure Cut (request : AppendEntriesRequest) : Prop where
  anchored : request.prevLogTerm = 0 -> request.prevLogIndex = 0 ∨ request.entries = []
  positive : forall entry, entry ∈ request.entries -> 1 ≤ entry.term
  ordered : Ordered LogEntry.term request.entries
  above : forall entry, entry ∈ request.entries -> request.prevLogTerm ≤ entry.term
  bound : forall entry, entry ∈ request.entries -> entry.term ≤ request.term

/-- Whoever is not a follower has a term, and a leader probes behind the sentinel. -/
structure Poised (node : RaftNode) : Prop where
  active : node.state.role ≠ .follower -> 1 ≤ node.state.currentTerm
  probes : forall pair, pair ∈ node.state.nextIndex -> 0 < pair.2

/-- A node with a graded log, which it has saved, and in a position to send such
requests. -/
structure Tidy (node : RaftNode) : Prop where
  steady : Steady node
  saved : node.Saved
  graded : Graded node.state.currentTerm node.state.log
  poised : Poised node

/-! ## Logs -/

section Logs

variable {term : Nat} {log : RaftLog}

theorem Graded.holds (graded : Graded term log) : log = ⟨sentinel :: log.body⟩ :=
  congrArg RaftLog.mk graded.kept

theorem Graded.mono (graded : Graded term log) {later : Nat} (grows : term ≤ later) :
    Graded later log :=
  { graded with bound := fun entry listed => Nat.le_trans (graded.bound entry listed) grows }

theorem graded_new (term : Nat) : Graded term RaftLog.new where
  kept := rfl
  positive := fun _ impossible => by cases impossible
  ordered := List.Pairwise.nil
  bound := fun _ impossible => by cases impossible

/-- A new entry of the term. -/
theorem Graded.append (graded : Graded term log) (positive : 1 ≤ term) (command : LogCommand) :
    Graded term ⟨log.entries ++ [⟨term, command⟩]⟩ := by
  have body : RaftLog.body ⟨log.entries ++ [⟨term, command⟩]⟩ = log.body ++ [⟨term, command⟩] := by
    rw [graded.kept]
    rfl
  have cases_ : forall entry, entry ∈ log.body ++ [⟨term, command⟩] ->
      entry ∈ log.body ∨ entry.term = term := by
    intro entry listed
    rcases List.mem_append.mp listed with before | new
    · exact Or.inl before
    · rw [List.mem_singleton.mp new]
      exact Or.inr rfl
  constructor
  · rw [RaftLog.HasSentinel, body, graded.kept]
    rfl
  · intro entry listed
    rw [body] at listed
    rcases cases_ entry listed with before | new
    · exact graded.positive entry before
    · omega
  · rw [body]
    exact graded.ordered.concat graded.bound
  · intro entry listed
    rw [body] at listed
    rcases cases_ entry listed with before | new
    · exact graded.bound entry before
    · omega

/-- Entries that continue the log at an index, up to a later term. -/
theorem Graded.splice (graded : Graded term log) {request : AppendEntriesRequest}
    (cut : Cut request) (current : term ≤ request.term)
    (inside : request.prevLogIndex ≤ log.body.length)
    (same : log.termAt request.prevLogIndex = request.prevLogTerm) :
    Graded request.term ⟨sentinel :: splice log.body request.prevLogIndex request.entries⟩ := by
  by_cases unfinished :
      matchingTerms request.entries (log.body.drop request.prevLogIndex) < request.entries.length
  · have terms := map_term_splice unfinished
    -- each entry has the term of an entry of the kept part or of the request
    have origin : forall entry,
        entry ∈ Raft.splice log.body request.prevLogIndex request.entries ->
        (Exists fun other => other ∈ log.body ∧ other.term = entry.term) ∨
          Exists fun other => other ∈ request.entries ∧ other.term = entry.term := by
      intro entry listed
      have among := List.mem_map_of_mem (f := LogEntry.term) listed
      rw [terms] at among
      rcases List.mem_append.mp among with before | new
      · rcases List.mem_map.mp before with ⟨other, found, equal⟩
        exact Or.inl ⟨other, List.mem_of_mem_take found, equal⟩
      · rcases List.mem_map.mp new with ⟨other, found, equal⟩
        exact Or.inr ⟨other, found, equal⟩
    have start : Ordered LogEntry.term (log.body.take request.prevLogIndex) :=
      graded.ordered.of_isPrefix (List.take_prefix _ _)
    rw [termAt_eq_lastTerm graded.holds inside] at same
    constructor
    · exact RaftLog.hasSentinel_mk _
    · intro entry listed
      rcases origin entry listed with ⟨other, found, equal⟩ | ⟨other, found, equal⟩
      · rw [← equal]
        exact graded.positive other found
      · rw [← equal]
        exact cut.positive other found
    · apply List.pairwise_map.mp
      rw [RaftLog.body_mk, terms, ← List.map_append]
      apply List.pairwise_map.mpr
      refine List.pairwise_append.mpr ⟨start, cut.ordered, ?_⟩
      intro earlier before later new
      exact Nat.le_trans (start.le_lastTerm before) (by rw [same]; exact cut.above later new)
    · intro entry listed
      rcases origin entry listed with ⟨other, found, equal⟩ | ⟨other, found, equal⟩
      · rw [← equal]
        exact Nat.le_trans (graded.bound other found) current
      · rw [← equal]
        exact cut.bound other found
  · have unchanged : Raft.splice log.body request.prevLogIndex request.entries = log.body :=
      if_neg unfinished
    rw [unchanged, ← graded.holds]
    exact graded.mono current

end Logs

/-! ## Requests -/

section Requests

variable {node after : RaftNode} {actions : List Action}

/-- The entries behind an index are of its term or of later ones. -/
theorem Graded.termAt_le {term : Nat} {log : RaftLog} (graded : Graded term log) {index : Nat}
    {entry : LogEntry} (behind : entry ∈ log.body.drop index) : log.termAt index ≤ entry.term := by
  have inside : index ≤ log.body.length := by
    by_contra beyond
    rw [List.drop_eq_nil_of_le (by omega)] at behind
    cases behind
  rw [termAt_eq_lastTerm graded.holds inside]
  have ordered : Ordered LogEntry.term (log.body.take index ++ log.body.drop index) := by
    rw [List.take_append_drop]
    exact graded.ordered
  rcases eq_nil_or_endsIn LogEntry.term (log.body.take index) with
    empty | ⟨init, last, equal, same⟩
  · rw [empty]
    exact Nat.zero_le _
  · rw [← same]
    refine (List.pairwise_append.mp ordered).2.2 last ?_ entry behind
    rw [equal]
    exact List.mem_append_right init List.mem_cons_self

/-- Behind the sentinel and within the log no term is 0. -/
theorem Graded.termAt_pos {term : Nat} {log : RaftLog} (graded : Graded term log) {index : Nat}
    (above : 0 < index) (inside : index ≤ log.body.length) : 1 ≤ log.termAt index := by
  rcases Nat.exists_eq_succ_of_ne_zero (Nat.ne_of_gt above) with ⟨position, rfl⟩
  have below : position < log.body.length := inside
  rw [RaftLog.termAt_succ, List.getElem?_eq_getElem below]
  exact graded.positive _ (List.getElem_mem below)

/-- A leader with a graded log cuts its requests from it. -/
theorem Tidy.cut (tidy : Tidy node) {recipient : Nat} {request : AppendEntriesRequest}
    (listed : Action.sendAppendEntries recipient request ∈ node.replicateToAllPeers) :
    Cut request := by
  rcases mem_replicateToAllPeers listed with ⟨_, next, _, probed, equal⟩
  cases equal
  rcases Nat.exists_eq_succ_of_ne_zero (Nat.ne_of_gt (tidy.poised.probes _ probed)) with
    ⟨index, rfl⟩
  have graded := tidy.graded
  have sent := node.state.log.entriesFrom_succ index
  simp only [Nat.succ_eq_add_one, Nat.add_sub_cancel]
  rw [sent]
  constructor
  · intro absent
    by_contra neither
    rcases not_or.mp neither with ⟨behind, some_⟩
    have inside : index < node.state.log.body.length := by
      by_contra beyond
      exact some_ (List.drop_eq_nil_of_le (Nat.le_of_not_lt beyond))
    have positive := graded.termAt_pos (Nat.pos_of_ne_zero behind) (Nat.le_of_lt inside)
    exact absurd absent (Nat.ne_of_gt positive)
  · intro entry member
    exact graded.positive entry (List.mem_of_mem_drop member)
  · exact List.Pairwise.sublist (List.drop_sublist _ _) graded.ordered
  · intro entry member
    exact graded.termAt_le member
  · intro entry member
    exact graded.bound entry (List.mem_of_mem_drop member)

end Requests

/-! ## One call -/

section Calls

variable {node after : RaftNode} {actions : List Action}

/-- A call has left the node tidy, and what it sends to followers was cut from a log. -/
structure Arranges (after : RaftNode) (actions : List Action) : Prop where
  tidy : Tidy after
  sends : forall recipient request, Action.sendAppendEntries recipient request ∈ actions ->
    Cut request

theorem Tidy.arranges (tidy : Tidy after) (quiet : Requestless actions) : Arranges after actions where
  tidy := tidy
  sends := fun recipient request listed => absurd listed (quiet recipient request)

theorem poised_follower (role : after.state.role = .follower) (next : after.state.nextIndex = []) :
    Poised after where
  active := fun other => absurd role other
  probes := fun _ listed => by rw [next] at listed; cases listed

theorem Poised.congr (poised : Poised node) (role : after.state.role = node.state.role)
    (term : after.state.currentTerm = node.state.currentTerm)
    (next : after.state.nextIndex = node.state.nextIndex) : Poised after where
  active := by rw [role, term]; exact poised.active
  probes := by rw [next]; exact poised.probes

/-- A new leader probes behind the end of its log. -/
theorem poised_winElection {candidate : RaftNode} (positive : 1 ≤ candidate.state.currentTerm) :
    Poised candidate.winElection.1 where
  active := fun _ => positive
  probes := by
    intro pair listed
    rcases List.mem_map.mp listed with ⟨_, _, rfl⟩
    exact Nat.succ_pos _

/-- A call that leaves the log alone. -/
theorem Tidy.keeping (tidy : Tidy node) (maintains : Maintains node after)
    (log : after.state.log = node.state.log) (poised : Poised after) : Tidy after where
  steady := maintains.steady
  saved := maintains.saved tidy.saved
  graded := by
    rw [log]
    exact tidy.graded.mono maintains.term
  poised := poised

theorem Tidy.tick (tidy : Tidy node) (ticked : node.tick = .ok (after, actions)) :
    Arranges after actions := by
  have keeping := tidy.keeping (tidy.steady.maintains_tick ticked) (tick_log ticked)
  rcases tick_cases ticked with ⟨_, rfl, rfl⟩ | ⟨_, _, rfl, sent⟩ | ⟨_, _, started⟩
  · exact (keeping (tidy.poised.congr rfl rfl rfl)).arranges requestless_nil
  · have same := keeping (tidy.poised.congr rfl rfl rfl)
    rcases sent with rfl | rfl
    · exact same.arranges requestless_nil
    · exact ⟨same, fun _ _ listed => tidy.cut listed⟩
  · rcases startElection_eq_ok.mp started with ⟨_, result⟩
    split at result
    · cases result
      have leader := keeping (poised_winElection (Nat.succ_pos _))
      exact ⟨leader, fun _ _ listed => leader.cut listed⟩
    · cases result
      have candidate := keeping ⟨fun _ => Nat.succ_pos _, tidy.poised.probes⟩
      exact candidate.arranges (requestless_requestVotes _)

theorem Tidy.handleRequestVote (tidy : Tidy node) (request : RequestVoteRequest) :
    Arranges (node.handleRequestVote request).1 (node.handleRequestVote request).2 := by
  have keeping := tidy.keeping (tidy.steady.maintains_handleRequestVote request)
    (node.handleRequestVote_log request)
  have raised : Poised (node.raiseTerm request.term) := by
    unfold raiseTerm
    split
    · exact poised_follower (by simp) rfl
    · exact tidy.poised
  rcases node.handleRequestVote_cases request with ⟨_, equal⟩ | ⟨_, _, _, equal⟩ | ⟨_, _, equal⟩
  · rw [equal] at keeping ⊢
    exact (keeping tidy.poised).arranges (requestless_voteResponse _ _)
  · rw [equal] at keeping ⊢
    exact (keeping (raised.congr rfl rfl rfl)).arranges (requestless_voteResponse _ _)
  · rw [equal] at keeping ⊢
    exact (keeping raised).arranges (requestless_voteResponse _ _)

theorem Tidy.handleRequestVoteResponse (tidy : Tidy node) (sender : Nat)
    (response : RequestVoteResponse) :
    Arranges (node.handleRequestVoteResponse sender response).1
      (node.handleRequestVoteResponse sender response).2 := by
  have keeping := tidy.keeping (tidy.steady.maintains_handleRequestVoteResponse sender response)
    (node.handleRequestVoteResponse_log sender response)
  have counted := node.countVote_state sender response
  rcases node.handleRequestVoteResponse_cases sender response with
    equal | ⟨_, _, equal⟩ | ⟨role, _, equal⟩
  · rw [equal] at keeping ⊢
    exact (keeping tidy.poised).arranges requestless_nil
  · rw [equal] at keeping ⊢
    exact (keeping (poised_follower (by simp) rfl)).arranges requestless_nil
  · have positive : 1 ≤ (node.countVote sender response).state.currentTerm := by
      rw [counted]
      exact tidy.poised.active (by simp [role])
    rw [equal] at keeping ⊢
    by_cases won : (node.countVote sender response).votesReceived.card >=
        (node.countVote sender response).state.majorityCount
    · rw [if_pos won] at keeping ⊢
      have leader := keeping (poised_winElection positive)
      exact ⟨leader, fun _ _ listed => leader.cut listed⟩
    · rw [if_neg won] at keeping ⊢
      have same := keeping (tidy.poised.congr (by rw [counted]) (by rw [counted]) (by rw [counted]))
      exact same.arranges requestless_nil

/-- A request that passes the consistency check is inserted at an index the log
reaches, as a term 0 stands for no entry only. -/
theorem Cut.inside {request : AppendEntriesRequest} (cut : Cut request)
    (nonempty : request.entries ≠ [])
    (same : node.state.log.termAt request.prevLogIndex = request.prevLogTerm) :
    request.prevLogIndex ≤ node.state.log.body.length := by
  by_contra beyond
  have absent : node.state.log.termAt request.prevLogIndex = 0 := by
    apply RaftLog.termAt_of_gt
    rw [RaftLog.lastIndex_eq_length_body]
    exact Nat.lt_of_not_le beyond
  rcases cut.anchored (same.symm.trans absent) with first | empty
  · rw [first] at beyond
    exact beyond (Nat.zero_le _)
  · exact nonempty empty

/-- Inserting the entries of a request that was cut from a log of its term. -/
theorem Tidy.insertEntries (tidy : Tidy node) {request : AppendEntriesRequest} (cut : Cut request)
    (current : node.state.currentTerm = request.term)
    (same : node.state.log.termAt request.prevLogIndex = request.prevLogTerm)
    (inserted : node.insertEntries request = .ok after) : Tidy after := by
  have maintains := tidy.steady.maintains_insertEntries inserted
  by_cases empty : request.entries = []
  · rw [insertEntries_of_empty node empty] at inserted
    cases inserted
    exact tidy
  · have inside := cut.inside empty same
    rcases insertEntries_eq_ok tidy.graded.holds inside inserted with ⟨_, _, rfl⟩ | ⟨_, _, rfl⟩
    · refine ⟨maintains.steady, maintains.saved tidy.saved, ?_, tidy.poised.congr rfl rfl rfl⟩
      have spliced := tidy.graded.splice cut (Nat.le_of_eq current) inside same
      rw [← current] at spliced
      exact spliced
    · exact tidy

theorem Tidy.withCommit (tidy : Tidy node) {lastApplied commitIndex : Nat}
    (maintains : Maintains node (node.withCommit lastApplied commitIndex)) :
    Tidy (node.withCommit lastApplied commitIndex) :=
  tidy.keeping maintains rfl (tidy.poised.congr rfl rfl rfl)

theorem Tidy.handleAppendEntries (tidy : Tidy node) {request : AppendEntriesRequest}
    (cut : Cut request) (handled : node.handleAppendEntries request = .ok (after, actions)) :
    Arranges after actions := by
  have accepted : Tidy (node.acceptLeader request) :=
    tidy.keeping (tidy.steady.maintains_acceptLeader request) (by simp)
      (poised_follower (by simp) rfl)
  rcases handleAppendEntries_cases handled with
    ⟨_, rfl, rfl⟩ | ⟨_, _, rfl, rfl⟩ | ⟨current, same, inserted, ok, rfl, rfl⟩
  · exact tidy.arranges (requestless_reply _ _)
  · exact accepted.arranges (requestless_reply _ _)
  · have spliced : Tidy inserted := by
      refine accepted.insertEntries cut ?_ ?_ ok
      · simpa using current
      · simpa using same
    have followed := spliced.steady.maintains_followCommit request.leaderCommit
    rcases inserted.followCommit_shape request.leaderCommit with ⟨_, _, low, high, shape⟩
    rw [shape] at followed ⊢
    exact (spliced.withCommit followed).arranges
      ((requestless_applications _ low high).append (requestless_reply _ _))

/-- The leader's own commit rule. -/
theorem Tidy.maybeAdvanceCommitIndex (tidy : Tidy node) :
    Tidy node.maybeAdvanceCommitIndex.1 ∧ Requestless node.maybeAdvanceCommitIndex.2 := by
  have advanced := tidy.steady.maintains_maybeAdvanceCommitIndex
  rcases node.maybeAdvanceCommitIndex_shape with ⟨_, _, low, high, shape⟩
  rw [shape] at advanced ⊢
  exact ⟨tidy.withCommit advanced, requestless_applications _ low high⟩

theorem Tidy.handleAppendEntriesResponse (tidy : Tidy node) {sender : Nat}
    {response : AppendEntriesResponse}
    (handled : node.handleAppendEntriesResponse sender response = .ok (after, actions)) :
    Arranges after actions := by
  have active := tidy.poised.active
  rcases handleAppendEntriesResponse_cases handled with
    ⟨_, rfl, rfl⟩ | ⟨_, _, rfl, rfl⟩ | ⟨_, _, _, recorded, ok, equal⟩ | ⟨_, _, _, ok, rfl⟩
  · exact tidy.arranges requestless_nil
  · exact (tidy.keeping (tidy.steady.maintains_stepDown response.term) (by simp)
      (poised_follower (by simp) rfl)).arranges requestless_nil
  · have probes := recordMatch_pos ok tidy.poised.probes
    have moved : Tidy recorded := by
      rcases recordMatch_eq_ok ok with ⟨_, _, rfl, _⟩
      exact tidy.keeping (tidy.steady.maintains_same rfl rfl rfl rfl) rfl ⟨active, probes⟩
    rcases moved.maybeAdvanceCommitIndex with ⟨advanced, quiet⟩
    rw [← equal] at advanced quiet
    exact advanced.arranges quiet
  · have probes := recordRejection_pos ok tidy.poised.probes
    have moved : Tidy after := by
      rcases recordRejection_eq_ok ok with ⟨_, rfl, _⟩
      exact tidy.keeping (tidy.steady.maintains_same rfl rfl rfl rfl) rfl ⟨active, probes⟩
    exact moved.arranges requestless_nil

theorem Tidy.propose (tidy : Tidy node) {command : LogCommand} {emitted : Option (List Action)}
    (proposed : node.propose command = .ok (after, emitted)) :
    Arranges after (emitted.getD []) := by
  rcases propose_cases proposed with ⟨_, rfl, rfl⟩ | ⟨leads, room, rfl, rfl⟩
  · exact tidy.arranges requestless_nil
  · have positive := tidy.poised.active (by simp [leads])
    have appended : Tidy (node.withEntry command) := by
      have maintains := tidy.steady.maintains_withEntry command room
      exact ⟨maintains.steady, maintains.saved tidy.saved, tidy.graded.append positive command,
        tidy.poised.congr rfl rfl rfl⟩
    rcases appended.maybeAdvanceCommitIndex with ⟨advanced, quiet⟩
    refine ⟨advanced, ?_⟩
    intro recipient request listed
    rcases List.mem_append.mp listed with replicated | applied
    · exact appended.cut replicated
    · exact absurd applied (quiet recipient request)

end Calls

/-! ## Whole runs -/

section Runs

variable {peers : List Nat} {history : List Transition} {config final : Configuration}

theorem Tidy.restarted {node : RaftNode} (tidy : Tidy node) (peers : List Nat) (id : Nat) :
    Tidy (Configuration.restarted peers id node) := by
  have resumes := Configuration.resumes_restarted peers id tidy.saved tidy.graded.kept
  have awakened := Configuration.awakened_restarted peers id node
  constructor
  · constructor
    · rw [resumes.log]
      exact tidy.steady.sentinel
    · rw [resumes.log]
      exact tidy.steady.fits
    · rw [awakened.commit]
      exact Nat.zero_le _
    · rw [awakened.applied]
      exact Nat.zero_le _
  · exact resumes.saved
  · rw [resumes.term, resumes.log]
    exact tidy.graded
  · exact poised_follower awakened.role awakened.next

theorem tidy_initial (peers : List Nat) (id : Nat) : Tidy ((Configuration.initial peers).nodes id) where
  steady := ⟨rfl, one_le_vecCapacity, Nat.zero_le _, Nat.zero_le _⟩
  saved := ⟨StatePersister.new, rfl, Or.inr ⟨rfl, rfl⟩⟩
  graded := graded_new 0
  poised := poised_follower rfl rfl

/-- All nodes are tidy, and all requests on the network were cut from a log. -/
structure Ranked (config : Configuration) : Prop where
  nodes : forall id, Tidy (config.nodes id)
  requests : forall packet, packet ∈ config.network -> forall sender request,
    packet.message = .appendEntries sender request -> Cut request

theorem Ranked.respond_arranges (ranked : Ranked config) {event : Event}
    (enabled : config.Enabled event) {after : RaftNode} {actions : List Action}
    (response : config.respond peers event = .ok (after, actions)) : Arranges after actions := by
  have tidy := ranked.nodes event.actor
  cases event with
  | tick id => exact tidy.tick response
  | propose id command =>
      rcases Outcome.map_eq_ok.mp response with ⟨⟨proposed, emitted⟩, ok, equal⟩
      cases equal
      exact tidy.propose ok
  | restart id =>
      cases response
      exact (tidy.restarted peers id).arranges requestless_nil
  | deliver packet =>
      rcases packet with ⟨recipient, message⟩
      cases dispatch_handled response with
      | requestVote sender request => exact tidy.handleRequestVote request
      | requestVoteResponse sender vote => exact tidy.handleRequestVoteResponse sender vote
      | appendEntries sender request returned =>
          exact tidy.handleAppendEntries (ranked.requests _ enabled sender request rfl) returned
      | appendEntriesResponse sender reply returned =>
          exact tidy.handleAppendEntriesResponse returned

/-- A step keeps logs and requests in order. -/
theorem Ranked.step (ranked : Ranked config) {event : Event} {next : Configuration}
    {actions : List Action} (stepped : config.step peers event = some (next, actions)) :
    Ranked next := by
  rcases Configuration.step_eq_some.mp stepped with ⟨_, enabled, after, response, rfl⟩
  have arranges := ranked.respond_arranges enabled response
  constructor
  · exact Configuration.forall_install_nodes (fun _ node => Tidy node) arranges.tidy
      fun other _ => ranked.nodes other
  · intro packet listed sender request message
    rcases Configuration.request_of_mem_install listed message with before | emitted
    · exact ranked.requests packet before sender request message
    · exact arranges.sends packet.recipient request emitted

theorem ranked_run (run : Run peers history final) : Ranked final := by
  induction run with
  | start starts =>
      cases starts
      exact ⟨tidy_initial peers, fun _ impossible => by cases impossible⟩
  | next _ stepped ranked => exact ranked.step stepped

/-- The terms of a node's log, by index. -/
structure TermsInOrder (node : RaftNode) : Prop where
  sentinel : node.state.log.get 0 = some sentinel
  positive : forall index entry, 1 ≤ index -> node.state.log.get index = some entry ->
    1 ≤ entry.term
  ordered : forall lower upper earlier later, lower ≤ upper ->
    node.state.log.get lower = some earlier -> node.state.log.get upper = some later ->
    earlier.term ≤ later.term
  bound : node.state.log.lastTerm ≤ node.state.currentTerm

theorem Graded.get_le {term : Nat} {log : RaftLog} (graded : Graded term log) {lower upper : Nat}
    {earlier later : LogEntry} (order : lower ≤ upper) (first : log.get lower = some earlier)
    (second : log.get upper = some later) : earlier.term ≤ later.term := by
  rcases Nat.lt_or_eq_of_le order with before | rfl
  · rcases Nat.exists_eq_succ_of_ne_zero (Nat.ne_of_gt (Nat.zero_lt_of_lt before)) with
      ⟨upper, rfl⟩
    rw [RaftLog.get_succ] at second
    rcases List.getElem?_eq_some_iff.mp second with ⟨bound, rfl⟩
    cases lower with
    | zero =>
        rw [RaftLog.get, graded.kept] at first
        cases first
        exact Nat.zero_le _
    | succ lower =>
        rw [RaftLog.get_succ] at first
        rcases List.getElem?_eq_some_iff.mp first with ⟨inside, rfl⟩
        exact List.pairwise_iff_getElem.mp graded.ordered lower upper inside bound
          (Nat.lt_of_succ_lt_succ before)
  · rw [first] at second
    cases second
    exact Nat.le_refl _

theorem Graded.lastTerm_le {term : Nat} {log : RaftLog} (graded : Graded term log) :
    log.lastTerm ≤ term := by
  rw [RaftLog.lastTerm_eq_body graded.kept]
  cases last : log.body.getLast? with
  | none => exact Nat.zero_le _
  | some entry => exact graded.bound entry (List.mem_of_getLast? last)

theorem Tidy.termsInOrder {node : RaftNode} (tidy : Tidy node) : TermsInOrder node where
  sentinel := by
    rw [RaftLog.get, tidy.graded.kept]
    rfl
  positive := by
    intro index entry above found
    rcases Nat.exists_eq_succ_of_ne_zero (Nat.ne_of_gt above) with ⟨position, rfl⟩
    rw [RaftLog.get_succ] at found
    exact tidy.graded.positive entry (List.mem_of_getElem? found)
  ordered := fun _ _ _ _ => tidy.graded.get_le
  bound := tidy.graded.lastTerm_le

/-- Node 1 keeps an entry of term 1 to itself, and comes back from a crash when node 2
leads term 2 with another entry at the same index. -/
def inheritance : List Event :=
  ticks 1 52 ++
  [.deliver ⟨2, .requestVote 1 ⟨1, 1, 0, 0⟩⟩,
   .deliver ⟨1, .requestVoteResponse 2 ⟨1, true⟩⟩,
   .propose 1 (.put "k" "a")] ++
  ticks 2 42 ++
  [.deliver ⟨3, .requestVote 2 ⟨2, 2, 0, 0⟩⟩,
   .deliver ⟨2, .requestVoteResponse 3 ⟨2, true⟩⟩,
   .propose 2 (.put "k" "b"),
   .restart 1,
   .deliver ⟨1, .appendEntries 2 ⟨2, 2, 0, 0, [⟨2, .put "k" "b"⟩], 0⟩⟩]

/-- **Terms are in order.**  In every configuration of a run, the terms of a log start
at 1 behind the sentinel, do not decrease with the index, and do not exceed the term of
the node.  A replication request whose previous term is 0 goes to the start of the log
or carries nothing. -/
theorem terms_in_order (run : Run peers history final) :
    (forall id, TermsInOrder (final.nodes id)) ∧
    forall packet, packet ∈ final.network -> forall sender request,
      packet.message = .appendEntries sender request -> request.prevLogTerm = 0 ->
      request.prevLogIndex = 0 ∨ request.entries = [] := by
  have ranked := ranked_run run
  constructor
  · intro id
    exact (ranked.nodes id).termsInOrder
  · intro packet listed sender request message
    exact (ranked.requests packet listed sender request message).anchored

set_option maxRecDepth 100000 in
/-- Node 1 has replaced its entry by the one of term 2. -/
theorem terms_in_order_inheritance :
    Exists fun history => Exists fun final => Run [1, 2, 3] history final ∧
      (final.nodes 1).state.log = ⟨[sentinel, ⟨2, .put "k" "b"⟩]⟩ ∧
      (forall id, TermsInOrder (final.nodes id)) ∧
      forall packet, packet ∈ final.network -> forall sender request,
        packet.message = .appendEntries sender request -> request.prevLogTerm = 0 ->
        request.prevLogIndex = 0 ∨ request.entries = [] := by
  have checked : (execute [1, 2, 3] inheritance).any (fun result =>
      decide ((result.2.nodes 1).state.log = ⟨[sentinel, ⟨2, .put "k" "b"⟩]⟩)) = true := by
    decide +kernel
  rcases exists_run checked with ⟨history, final, run, replaced⟩
  exact ⟨history, final, run, of_decide_eq_true replaced, terms_in_order run⟩

end Runs
end Cluster
end RaftStore
