import RaftStore.Cluster.Refinement

namespace RaftStore
namespace Cluster

open Raft Consensus Systems

/-!
# Elections, logs and leaders

What the ledger guarantees, said of the nodes themselves: a term has at most one
leader, logs that agree on the term of an entry agree up to it, and an entry of
the leader's own term that was held by a majority in that term is in the log of
every later leader.  These hold in every run, without any assumption on what
followers report to their leaders.
-/

section Reading

variable {peers : List Nat} {ledger : Ledger Nat LogEntry} {id : Nat} {node : RaftNode}

/-- An index of a log beyond the sentinel is a position of its body. -/
theorem Represents.get_succ (represents : Represents peers ledger id node) (index : Nat) :
    node.state.log.get (index + 1) = (ledger.log id)[index]? := by
  rw [RaftLog.get_succ, represents.log_eq, RaftLog.body_mk]

theorem Represents.get_zero (represents : Represents peers ledger id node) :
    node.state.log.get 0 = some sentinel := by
  rw [represents.log_eq]
  rfl

/-- The part of a log that ends with the entry at a given index. -/
theorem Represents.take_of_get (represents : Represents peers ledger id node) {index : Nat}
    {entry : LogEntry} (present : node.state.log.get (index + 1) = some entry) :
    (ledger.log id).take (index + 1) = (ledger.log id).take index ++ [entry] ∧
      ((ledger.log id).take index).length = index := by
  rw [represents.get_succ] at present
  have inside : index < (ledger.log id).length := (List.getElem?_eq_some_iff.mp present).1
  refine ⟨?_, List.length_take_of_le (Nat.le_of_lt inside)⟩
  rw [List.take_add_one, present]
  rfl

/-- Two logs with the same part up to an index have the same entries up to it. -/
theorem Represents.get_eq_of_take {ledger' : Ledger Nat LogEntry} {id' : Nat} {node' : RaftNode}
    (represents : Represents peers ledger id node)
    (represents' : Represents peers ledger' id' node') {index : Nat}
    (same : (ledger.log id).take index = (ledger'.log id').take index) :
    forall position, position ≤ index ->
      node.state.log.get position = node'.state.log.get position := by
  intro position inside
  cases position with
  | zero => rw [represents.get_zero, represents'.get_zero]
  | succ position =>
      rw [represents.get_succ, represents'.get_succ,
        ← List.getElem?_take_of_lt (Nat.lt_of_succ_le inside), same,
        List.getElem?_take_of_lt (Nat.lt_of_succ_le inside)]

/-- An entry whose term is that of a leader is not the sentinel. -/
theorem SoundFor.index_pos (sound : SoundFor peers ledger)
    (represents : Represents peers ledger id node) {term : Nat} {r : Reign Nat LogEntry}
    (found : ledger.reign term = some r) {index : Nat} {entry : LogEntry}
    (present : node.state.log.get index = some entry) (sameTerm : entry.term = term) :
    Exists fun position => index = position + 1 := by
  cases index with
  | zero =>
      rw [represents.get_zero] at present
      cases present
      exact absurd sameTerm (Nat.ne_of_lt (sound.reign_pos found))
  | succ position => exact ⟨position, rfl⟩

/-- The reign of a node that is leader, with the node's log. -/
theorem Represents.reign_of_leader (represents : Represents peers ledger id node)
    (sound : SoundFor peers ledger) (role : node.state.role = .leader) :
    Exists fun r => ledger.reign node.state.currentTerm = some r ∧ r.leader = id ∧
      ledger.log id = r.log := by
  rcases represents.leads role with ⟨r, found, own⟩
  exact ⟨r, by rw [represents.term_eq]; exact found, own, sound.log_of_leader found own⟩

end Reading

section Agreement

variable {peers : List Nat} {history : List Transition} {final : Configuration}

/-- A schedule for three nodes: node 1 is elected and gets an entry to node 2,
which is elected after it. -/
def succession : List Event :=
  ticks 1 52 ++
  [.deliver ⟨2, .requestVote 1 ⟨1, 1, 0, 0⟩⟩,
   .deliver ⟨1, .requestVoteResponse 2 ⟨1, true⟩⟩,
   .propose 1 (.put "k" "a"),
   .deliver ⟨2, .appendEntries 1 ⟨1, 1, 0, 0, [⟨1, .put "k" "a"⟩], 0⟩⟩] ++
  ticks 2 57 ++
  [.deliver ⟨3, .requestVote 2 ⟨2, 2, 1, 1⟩⟩,
   .deliver ⟨2, .requestVoteResponse 3 ⟨2, true⟩⟩]

/-- **Election safety.**  In a run, no two nodes are ever leaders of one term. -/
theorem election_safety (distinct : peers.Nodup) (run : Run peers history final)
    {first second : Configuration} (visitsFirst : Visits history final first)
    (visitsSecond : Visits history final second) {left right term : Nat}
    (leftMember : left ∈ peers) (rightMember : right ∈ peers)
    (leftRole : (first.nodes left).state.role = .leader)
    (leftTerm : (first.nodes left).state.currentTerm = term)
    (rightRole : (second.nodes right).state.role = .leader)
    (rightTerm : (second.nodes right).state.currentTerm = term) : left = right := by
  rcases run.traces distinct with ⟨ledger, traces⟩
  rcases traces.moments first visitsFirst with ⟨before, sound, simulates, grows⟩
  rcases traces.moments second visitsSecond with ⟨before', sound', simulates', grows'⟩
  rcases (simulates.nodes left leftMember).reign_of_leader sound leftRole with ⟨r, found, own, _⟩
  rcases (simulates'.nodes right rightMember).reign_of_leader sound' rightRole with
    ⟨r', found', own', _⟩
  rcases grows.reign found with ⟨last, present, leader, _⟩
  rcases grows'.reign found' with ⟨last', present', leader', _⟩
  rw [leftTerm] at present
  rw [rightTerm, present] at present'
  cases present'
  rw [← own, ← own', ← leader, ← leader']

set_option maxRecDepth 100000 in
/-- Node 1 leads term 1 in the schedule, so node 2 never does. -/
theorem election_safety_succession :
    Exists fun history => Exists fun final => Run [1, 2, 3] history final ∧
      (final.nodes 1).state.role = .leader ∧ (final.nodes 1).state.currentTerm = 1 ∧
      forall moment, Visits history final moment ->
        ¬ ((moment.nodes 2).state.role = .leader ∧ (moment.nodes 2).state.currentTerm = 1) := by
  have checked : (execute [1, 2, 3] succession).any (fun result =>
      decide ((result.2.nodes 1).state.role = .leader ∧
        (result.2.nodes 1).state.currentTerm = 1)) = true := by decide +kernel
  rcases exists_run checked with ⟨history, final, run, holds⟩
  rcases of_decide_eq_true holds with ⟨role, term⟩
  refine ⟨history, final, run, role, term, ?_⟩
  rintro moment visits ⟨otherRole, otherTerm⟩
  have same : 1 = 2 := election_safety (by decide) run (Or.inl rfl) visits (by decide) (by decide)
    role term otherRole otherTerm
  cases same

/-- **Log matching.**  In every configuration reached by a run, two logs with
entries of one term at the same index are equal up to that index. -/
theorem log_matching (distinct : peers.Nodup) (run : Run peers history final) {left right : Nat}
    (leftMember : left ∈ peers) (rightMember : right ∈ peers) {index : Nat}
    (positive : 1 ≤ index) {leftEntry rightEntry : LogEntry}
    (leftPresent : (final.nodes left).state.log.get index = some leftEntry)
    (rightPresent : (final.nodes right).state.log.get index = some rightEntry)
    (sameTerm : leftEntry.term = rightEntry.term) :
    forall position, position ≤ index ->
      (final.nodes left).state.log.get position = (final.nodes right).state.log.get position := by
  rcases run.traces distinct with ⟨ledger, traces⟩
  have leftNode := traces.simulates.nodes left leftMember
  have rightNode := traces.simulates.nodes right rightMember
  obtain ⟨last, rfl⟩ : Exists fun last => index = last + 1 := ⟨index - 1, by omega⟩
  rcases leftNode.take_of_get leftPresent with ⟨leftPart, leftLength⟩
  rcases rightNode.take_of_get rightPresent with ⟨rightPart, rightLength⟩
  apply leftNode.get_eq_of_take rightNode
  rw [leftPart, rightPart]
  apply (traces.sound.log_rooted left).matching (traces.sound.log_rooted right)
  · rw [← leftPart]
    exact List.take_prefix _ _
  · rw [← rightPart]
    exact List.take_prefix _ _
  · rw [leftLength, rightLength]
  · exact sameTerm

set_option maxRecDepth 100000 in
/-- The two leaders of the schedule hold an entry of the same term at index 1. -/
theorem log_matching_succession :
    Exists fun history => Exists fun final => Run [1, 2, 3] history final ∧
      (final.nodes 1).state.log.get 1 = some ⟨1, .put "k" "a"⟩ ∧
      forall position, position ≤ 1 ->
        (final.nodes 1).state.log.get position = (final.nodes 2).state.log.get position := by
  have checked : (execute [1, 2, 3] succession).any (fun result =>
      decide ((result.2.nodes 1).state.log.get 1 = some ⟨1, .put "k" "a"⟩ ∧
        (result.2.nodes 2).state.log.get 1 = some ⟨1, .put "k" "a"⟩)) = true := by decide +kernel
  rcases exists_run checked with ⟨history, final, run, holds⟩
  rcases of_decide_eq_true holds with ⟨left, right⟩
  exact ⟨history, final, run, left,
    log_matching (by decide) run (by decide) (by decide) (Nat.le_refl 1) left right rfl⟩

/-- What a node holds in the leader's term is recorded by the end of the run. -/
theorem Traces.agreed_of_get {ledger : Ledger Nat LogEntry} (traces : Traces peers history final ledger)
    {moment : Configuration} (visits : Visits history final moment) {voter : Nat}
    (member : voter ∈ peers) {index : Nat} {copy : LogEntry}
    (present : (moment.nodes voter).state.log.get (index + 1) = some copy)
    (current : copy.term = (moment.nodes voter).state.currentTerm) :
    Exists fun part => part.length = index + 1 ∧
      ledger.agreed voter (moment.nodes voter).state.currentTerm part := by
  rcases traces.moments moment visits with ⟨before, sound, simulates, grows⟩
  have represents := simulates.nodes voter member
  rcases represents.take_of_get present with ⟨part, length⟩
  have begins : (before.log voter).take index ++ [copy] <+: before.log voter := by
    rw [← part]
    exact List.take_prefix _ _
  have holds : Holds before voter ((before.log voter).take index ++ [copy]) := by
    refine ⟨begins, ?_⟩
    rcases sound.log_rooted voter _ _ begins with ⟨r, found, issued⟩
    rw [current, represents.term_eq] at found
    exact ⟨r, found, issued⟩
  refine ⟨_, ?_, grows.agreed (by rw [represents.term_eq]; exact simulates.recorded voter _ holds)⟩
  rw [List.length_append, length]
  rfl

/-- **Leader completeness.**  If the leader of a term has an entry of that term
at an index, and a majority has each, at some moment in that term, held an entry
of that term there, then every leader of a later term has the same log up to
that index. -/
theorem leader_completeness (distinct : peers.Nodup) (run : Run peers history final)
    {origin : Configuration} (visitsOrigin : Visits history final origin) {leader term : Nat}
    (leaderMember : leader ∈ peers) (leads : (origin.nodes leader).state.role = .leader)
    (leaderTerm : (origin.nodes leader).state.currentTerm = term) {index : Nat} {entry : LogEntry}
    (present : (origin.nodes leader).state.log.get index = some entry)
    (entryTerm : entry.term = term) {quorum : Finset Nat}
    (majority : Majority peers.toFinset quorum)
    (held : forall voter, voter ∈ quorum -> Exists fun moment => Visits history final moment ∧
      (moment.nodes voter).state.currentTerm = term ∧ Exists fun copy =>
        (moment.nodes voter).state.log.get index = some copy ∧ copy.term = term)
    {later : Configuration} (visitsLater : Visits history final later) {successor : Nat}
    (successorMember : successor ∈ peers) (succeeds : (later.nodes successor).state.role = .leader)
    (laterTerm : term < (later.nodes successor).state.currentTerm) :
    (later.nodes successor).state.log.get index = some entry ∧
      forall position, position ≤ index ->
        (later.nodes successor).state.log.get position =
          (origin.nodes leader).state.log.get position := by
  rcases run.traces distinct with ⟨ledger, traces⟩
  rcases traces.moments origin visitsOrigin with ⟨before, sound, simulates, grows⟩
  have represents := simulates.nodes leader leaderMember
  rcases represents.reign_of_leader sound leads with ⟨r, found, _, ownLog⟩
  rw [leaderTerm] at found
  rcases sound.index_pos represents found present entryTerm with ⟨position, rfl⟩
  rcases represents.take_of_get present with ⟨part, length⟩
  rcases grows.reign found with ⟨last, lastFound, _, _, lastLog⟩
  have issued : (before.log leader).take (position + 1) <+: last.log := by
    rw [ownLog]
    exact (List.take_prefix _ _).trans lastLog
  have chosen : Chosen peers.toFinset LogEntry.term ledger term
      ((before.log leader).take (position + 1)) := by
    refine ⟨⟨_, entry, part, entryTerm⟩, quorum, majority, ?_⟩
    intro voter member
    rcases held voter member with ⟨moment, visits, voterTerm, copy, copyPresent, copyTerm⟩
    have inPeers : voter ∈ peers := List.mem_toFinset.mp (majority.1 member)
    rcases traces.agreed_of_get visits inPeers copyPresent (copyTerm.trans voterTerm.symm) with
      ⟨copied, copiedLength, agreed⟩
    rw [voterTerm] at agreed
    -- both are the prefix of the leader's log of the same length
    rcases traces.sound.agreed_issued agreed with ⟨r', found', issued'⟩
    rw [lastFound] at found'
    cases found'
    have sameLength : copied.length = ((before.log leader).take (position + 1)).length := by
      rw [copiedLength, part, List.length_append, length]
      rfl
    rw [← (List.prefix_of_prefix_length_le issued' issued (Nat.le_of_eq sameLength)).eq_of_length
      sameLength]
    exact agreed
  rcases traces.moments later visitsLater with ⟨after, sound', simulates', grows'⟩
  have represents' := simulates'.nodes successor successorMember
  rcases represents'.reign_of_leader sound' succeeds with ⟨next, nextFound, _, nextLog⟩
  rcases grows'.reign nextFound with ⟨next', nextFound', _, sameInitial, _⟩
  have carried := traces.sound.complete chosen _ next' laterTerm nextFound'
  rw [sameInitial] at carried
  have contained : (before.log leader).take (position + 1) <+: after.log successor := by
    rw [nextLog]
    exact carried.trans (sound'.lawful nextFound).begins
  have sameTake : (after.log successor).take (position + 1) =
      (before.log leader).take (position + 1) := by
    rw [List.prefix_iff_eq_take.mp contained, part, List.length_append, length]
    rfl
  have equal := represents'.get_eq_of_take represents sameTake
  exact ⟨(equal _ (Nat.le_refl _)).trans present, equal⟩

set_option maxRecDepth 100000 in
/-- Nodes 1 and 2 hold the entry of term 1 in that term, so node 2 has it as the
leader of term 2. -/
theorem leader_completeness_succession :
    Exists fun history => Exists fun final => Run [1, 2, 3] history final ∧
      (final.nodes 2).state.role = .leader ∧ (final.nodes 2).state.currentTerm = 2 ∧
      (final.nodes 2).state.log.get 1 = some ⟨1, .put "k" "a"⟩ := by
  have checked : (execute [1, 2, 3] succession).any (fun result =>
      decide ((result.2.nodes 2).state.role = .leader ∧
        (result.2.nodes 2).state.currentTerm = 2) &&
      result.1.any (fun transition =>
        decide ((transition.source.nodes 1).state.role = .leader ∧
          (transition.source.nodes 1).state.currentTerm = 1 ∧
          (transition.source.nodes 1).state.log.get 1 = some ⟨1, .put "k" "a"⟩ ∧
          (transition.source.nodes 2).state.currentTerm = 1 ∧
          (transition.source.nodes 2).state.log.get 1 = some ⟨1, .put "k" "a"⟩))) = true := by
    decide +kernel
  rcases exists_run checked with ⟨history, final, run, holds⟩
  rcases Bool.and_eq_true_iff.mp holds with ⟨successor, replicated⟩
  rcases of_decide_eq_true successor with ⟨succeeds, laterTerm⟩
  rcases List.any_eq_true.mp replicated with ⟨transition, member, both⟩
  rcases of_decide_eq_true both with ⟨leads, leaderTerm, present, voterTerm, copy⟩
  have visits : Visits history final transition.source := Or.inr ⟨transition, member, rfl⟩
  refine ⟨history, final, run, succeeds, laterTerm, ?_⟩
  have majority : Majority [1, 2, 3].toFinset {1, 2} := ⟨by decide, by decide⟩
  refine (leader_completeness (by decide) run visits (by decide) leads leaderTerm present rfl
    majority ?_ (Or.inl rfl) (by decide) succeeds (by rw [laterTerm]; decide)).1
  intro voter listed
  rcases Finset.mem_insert.mp listed with rfl | second
  · exact ⟨_, visits, leaderTerm, _, present, rfl⟩
  · rw [Finset.mem_singleton.mp second]
    exact ⟨_, visits, voterTerm, _, copy, rfl⟩

/-- **Leader append-only.**  A step of a run that finds a node leader and leaves it
in its term extends its log by entries of that term, and changes nothing in it.
The node need not be leader after the step: also a restart keeps the log. -/
theorem leader_append_only (distinct : peers.Nodup) (run : Run peers history final)
    {transition : Transition} (taken : transition ∈ history) {id : Nat} (member : id ∈ peers)
    (leads : (transition.source.nodes id).state.role = .leader)
    (sameTerm : (transition.target.nodes id).state.currentTerm =
      (transition.source.nodes id).state.currentTerm) :
    Exists fun added =>
      (transition.target.nodes id).state.log.entries =
        (transition.source.nodes id).state.log.entries ++ added ∧
      forall entry, entry ∈ added ->
        entry.term = (transition.target.nodes id).state.currentTerm := by
  rcases List.append_of_mem taken with ⟨newer, older, rfl⟩
  rcases run.split with ⟨earlier, stepped⟩
  rcases Run.traces distinct earlier with ⟨ledger, traces⟩
  rcases traces.simulates.step distinct traces.sound stepped with ⟨later, steps, simulates⟩
  have before := traces.simulates.nodes id member
  have after := simulates.nodes id member
  have appends : Exists fun added => later.log id = ledger.log id ++ added ∧
      forall entry, entry ∈ added -> entry.term = ledger.term id := by
    by_cases acting : id = transition.event.actor
    · rw [← acting] at steps
      rcases before.leads leads with ⟨r, found, own⟩
      exact steps.leader_appends traces.sound found own
        (by rw [← after.term_eq, ← before.term_eq, sameTerm])
    · exact ⟨[], by rw [(steps.moves traces.sound).log_eq acting, List.append_nil],
        fun _ listed => (List.not_mem_nil listed).elim⟩
  rcases appends with ⟨added, log, terms⟩
  refine ⟨added, ?_, fun entry listed => ?_⟩
  · rw [after.log_eq, before.log_eq, log]
    rfl
  · rw [terms entry listed, sameTerm, before.term_eq]

set_option maxRecDepth 100000 in
/-- The proposal to node 1 in the schedule extends its log. -/
theorem leader_append_only_succession :
    Exists fun history => Exists fun final => Run [1, 2, 3] history final ∧
      Exists fun transition => transition ∈ history ∧
        (transition.source.nodes 1).state.role = .leader ∧
        transition.event = .propose 1 (.put "k" "a") ∧
        Exists fun added => added ≠ [] ∧
          (transition.target.nodes 1).state.log.entries =
            (transition.source.nodes 1).state.log.entries ++ added ∧
          forall entry, entry ∈ added ->
            entry.term = (transition.target.nodes 1).state.currentTerm := by
  have checked : (execute [1, 2, 3] succession).any (fun result =>
      result.1.any (fun transition =>
        decide (transition.event = .propose 1 (.put "k" "a") ∧
          (transition.source.nodes 1).state.role = .leader ∧
          (transition.target.nodes 1).state.currentTerm =
            (transition.source.nodes 1).state.currentTerm ∧
          (transition.target.nodes 1).state.log.entries ≠
            (transition.source.nodes 1).state.log.entries))) = true := by decide +kernel
  rcases exists_run checked with ⟨history, final, run, holds⟩
  rcases List.any_eq_true.mp holds with ⟨transition, member, both⟩
  rcases of_decide_eq_true both with ⟨proposal, leads, sameTerm, grew⟩
  rcases leader_append_only (by decide) run member (by decide) leads sameTerm with
    ⟨added, extended, terms⟩
  refine ⟨history, final, run, transition, member, leads, proposal, added, ?_, extended, terms⟩
  rintro rfl
  exact grew (extended.trans (List.append_nil _))

end Agreement
end Cluster
end RaftStore
