import RaftStore.Cluster.Durability

namespace RaftStore
namespace Cluster

open Raft Consensus Systems

/-!
# What commitment guarantees

In a prudent run a committed entry is the same everywhere and stays where it is.
The schedules below show that prudence is needed: a follower that answers a
heartbeat with the length of a log its leader does not know makes the leader
commit an entry that no other node has.
-/

/-! ## A leader that believes too much -/

/-- Node 1 leads term 1 and appends an entry that reaches nobody.  Node 2 is
elected in term 2 with an empty log, and node 1 answers its first heartbeat with
the end of its own log. -/
def overestimate : List Event :=
  ticks 1 52 ++
  [.deliver ⟨2, .requestVote 1 ⟨1, 1, 0, 0⟩⟩,
   .deliver ⟨1, .requestVoteResponse 2 ⟨1, true⟩⟩,
   .propose 1 (.put "k" "a")] ++
  ticks 2 42 ++
  [.deliver ⟨3, .requestVote 2 ⟨2, 2, 0, 0⟩⟩,
   .deliver ⟨2, .requestVoteResponse 3 ⟨2, true⟩⟩,
   .deliver ⟨1, .appendEntries 2 ⟨2, 2, 0, 0, [], 0⟩⟩,
   .deliver ⟨2, .appendEntriesResponse 1 ⟨2, true, some 1⟩⟩]

/-- Node 2 commits an entry of its own at once, and node 1 is elected in term 3. -/
def takeover : List Event :=
  overestimate ++ [.propose 2 (.put "k" "b")] ++ ticks 1 50 ++
  [.deliver ⟨3, .requestVote 1 ⟨3, 1, 1, 1⟩⟩,
   .deliver ⟨1, .requestVoteResponse 3 ⟨3, true⟩⟩]

/-- Node 1 replicates its log to node 3 and commits it. -/
def disagreement : List Event :=
  takeover ++
  [.deliver ⟨3, .appendEntries 1 ⟨3, 1, 1, 1, [], 0⟩⟩,
   .deliver ⟨1, .appendEntriesResponse 3 ⟨3, false, some 0⟩⟩,
   .propose 1 (.put "k" "c"),
   .deliver ⟨3, .appendEntries 1 ⟨3, 1, 0, 0, [⟨1, .put "k" "a"⟩, ⟨3, .put "k" "c"⟩], 0⟩⟩,
   .deliver ⟨1, .appendEntriesResponse 3 ⟨3, true, some 2⟩⟩]

/-- Node 1 gets a refusal of term 2 from node 2, backs up, and overwrites what
node 2 has committed. -/
def replacement : List Event :=
  takeover ++
  [.deliver ⟨2, .appendEntries 1 ⟨1, 1, 0, 0, [], 0⟩⟩,
   .deliver ⟨1, .appendEntriesResponse 2 ⟨2, false, none⟩⟩,
   .propose 1 (.put "k" "c"),
   .deliver ⟨2, .appendEntries 1 ⟨3, 1, 0, 0, [⟨1, .put "k" "a"⟩, ⟨3, .put "k" "c"⟩], 0⟩⟩]

/-- An entry is replicated to node 2 and committed on both nodes. -/
def replicationRound : List Event :=
  ticks 1 52 ++
  [.deliver ⟨2, .requestVote 1 ⟨1, 1, 0, 0⟩⟩,
   .deliver ⟨1, .requestVoteResponse 2 ⟨1, true⟩⟩,
   .propose 1 (.put "k" "a"),
   .deliver ⟨2, .appendEntries 1 ⟨1, 1, 0, 0, [⟨1, .put "k" "a"⟩], 0⟩⟩,
   .deliver ⟨1, .appendEntriesResponse 2 ⟨1, true, some 1⟩⟩,
   .propose 1 (.delete "k"),
   .deliver ⟨2, .appendEntries 1 ⟨1, 1, 1, 1, [⟨1, .delete "k"⟩], 1⟩⟩]

section Results

variable {peers : List Nat} {history : List Transition} {final : Configuration}

/-! ## State machine safety -/

/-- **State machine safety.**  In a prudent run, all commands applied at one
index are equal. -/
theorem state_machine_safety (distinct : peers.Nodup) (run : Run peers history final)
    (prudent : Meets Prudent history) {index : Nat} {left right : LogCommand}
    (first : Action.applyEntry index left ∈ emitted history)
    (second : Action.applyEntry index right ∈ emitted history) : left = right := by
  rcases run.commitTrace distinct prudent with ⟨ledger, trace⟩
  exact trace.sound.applied_unique (trace.applied index left first) (trace.applied index right second)

set_option maxRecDepth 100000 in
/-- The round is prudent and applies the entry, so nothing else is applied at
index 1. -/
theorem state_machine_safety_round :
    Exists fun history => Exists fun final => Run [1, 2, 3] history final ∧
      Meets Prudent history ∧ Action.applyEntry 1 (.put "k" "a") ∈ emitted history ∧
      forall command, Action.applyEntry 1 command ∈ emitted history ->
        command = .put "k" "a" := by
  have checked : (execute [1, 2, 3] replicationRound).any (fun result =>
      decide (Meets Prudent result.1) &&
      decide (Action.applyEntry 1 (.put "k" "a") ∈ emitted result.1)) = true := by decide +kernel
  rcases exists_run checked with ⟨history, final, run, holds⟩
  rcases Bool.and_eq_true_iff.mp holds with ⟨prudent, applied⟩
  refine ⟨history, final, run, of_decide_eq_true prudent, of_decide_eq_true applied, ?_⟩
  intro command other
  exact state_machine_safety (by decide) run (of_decide_eq_true prudent) other
    (of_decide_eq_true applied)

set_option maxRecDepth 100000 in
/-- Without prudence two nodes apply different commands at one index. -/
theorem state_machine_disagrees :
    ¬ forall history final, Run [1, 2, 3] history final -> forall index left right,
      Action.applyEntry index left ∈ emitted history ->
      Action.applyEntry index right ∈ emitted history -> left = right := by
  intro safe
  have checked : (execute [1, 2, 3] disagreement).any (fun result =>
      decide (Action.applyEntry 1 (.put "k" "a") ∈ emitted result.1 ∧
        Action.applyEntry 1 (.put "k" "b") ∈ emitted result.1)) = true := by decide +kernel
  rcases exists_run checked with ⟨history, final, run, holds⟩
  rcases of_decide_eq_true holds with ⟨first, second⟩
  have same := safe history final run 1 _ _ first second
  simp at same

/-! ## Permanence -/

/-- The counters of every node after a prudent run. -/
theorem CommitTrace.counters {ledger : Ledger Nat LogEntry}
    (trace : CommitTrace peers history final ledger) {id : Nat} (member : id ∈ peers) :
    (final.nodes id).state.lastApplied = (final.nodes id).state.commitIndex ∧
      (final.nodes id).state.commitIndex ≤ (final.nodes id).state.log.lastIndex := by
  have settled := trace.commits.nodes id member
  refine ⟨settled.applied, ?_⟩
  rw [RaftLog.lastIndex_eq_length_body, (trace.simulates.nodes id member).log_eq, RaftLog.body_mk]
  exact settled.bound

/-- What a prudent step leaves of the entries below a commit index. -/
theorem StepCommits.get_eq {config next : Configuration} {event : Event} {actions : List Action}
    {ledger later : Ledger Nat LogEntry}
    (step : StepCommits peers config next event actions ledger later)
    (sound : SoundFor peers ledger) (simulates : Simulates peers config ledger)
    (commits : Commits peers config ledger) {id : Nat} (member : id ∈ peers) {position : Nat}
    (below : position ≤ (config.nodes id).state.commitIndex) :
    (next.nodes id).state.log.get position = (config.nodes id).state.log.get position := by
  have settled := commits.nodes id member
  have kept := step.steps.keeps_durable sound settled.durable (List.take_prefix _ _)
  have same := take_eq_of_isPrefix settled.bound kept
  exact (step.simulates.nodes id member).get_eq_of_take (simulates.nodes id member) same position
    below

/-- Whatever is committed at a node in a run is applied and within the log, and
the commit index falls at no step but a restart of the node.  No step changes an
entry at or below the commit index. -/
def Permanent (peers : List Nat) (history : List Transition) (final : Configuration) : Prop :=
  (forall visited, Visits history final visited -> forall id, id ∈ peers ->
    (visited.nodes id).state.lastApplied = (visited.nodes id).state.commitIndex ∧
    (visited.nodes id).state.commitIndex ≤ (visited.nodes id).state.log.lastIndex) ∧
  (forall transition, transition ∈ history -> forall id, id ∈ peers ->
    transition.event ≠ .restart id ->
      (transition.source.nodes id).state.commitIndex ≤
        (transition.target.nodes id).state.commitIndex ∧
      forall position, position ≤ (transition.source.nodes id).state.commitIndex ->
        (transition.target.nodes id).state.log.get position =
          (transition.source.nodes id).state.log.get position)

/-- In a prudent run, what is committed is permanent. -/
theorem committed_permanent (distinct : peers.Nodup) (run : Run peers history final)
    (prudent : Meets Prudent history) : Permanent peers history final := by
  induction run with
  | start begins =>
      rcases Run.commitTrace distinct (.start begins) prudent with ⟨ledger, trace⟩
      refine ⟨?_, fun _ listed => (List.not_mem_nil listed).elim⟩
      rintro visited (rfl | ⟨_, listed, _⟩) id member
      · exact trace.counters member
      · cases listed
  | next run stepped inductionHypothesis =>
      have earlier := prudent.earlier
      rcases inductionHypothesis earlier with ⟨counters, steps⟩
      rcases Run.commitTrace distinct run earlier with ⟨ledger, trace⟩
      rcases Run.commitTrace distinct (run.next stepped) prudent with ⟨whole, wholeTrace⟩
      rcases trace.commits.step distinct trace.simulates trace.sound
        prudent.last stepped with ⟨later, step⟩
      constructor
      · intro visited visits id member
        rcases visits_next visits with rfl | before
        · exact wholeTrace.counters member
        · exact counters visited before id member
      · intro transition listed id member running
        rcases List.mem_cons.mp listed with rfl | before
        · exact ⟨step.monotone id running, fun position below =>
            step.get_eq trace.sound trace.simulates trace.commits member below⟩
        · exact steps transition before id member running

set_option maxRecDepth 100000 in
/-- In the round, which is prudent, node 2 has applied what it has committed. -/
theorem committed_permanent_round :
    Exists fun history => Exists fun final => Run [1, 2, 3] history final ∧
      Meets Prudent history ∧ (final.nodes 2).state.commitIndex = 1 ∧
      (final.nodes 2).state.lastApplied = (final.nodes 2).state.commitIndex := by
  have checked : (execute [1, 2, 3] replicationRound).any (fun result =>
      decide (Meets Prudent result.1) &&
      decide ((result.2.nodes 2).state.commitIndex = 1)) = true := by decide +kernel
  rcases exists_run checked with ⟨history, final, run, holds⟩
  rcases Bool.and_eq_true_iff.mp holds with ⟨prudent, committed⟩
  refine ⟨history, final, run, of_decide_eq_true prudent, of_decide_eq_true committed, ?_⟩
  have permanent := committed_permanent (by decide) run (of_decide_eq_true prudent)
  exact (permanent.1 final (Or.inl rfl) 2 (by decide)).1

set_option maxRecDepth 100000 in
/-- Without prudence a step replaces an entry that its node has committed. -/
theorem committed_replaced :
    ¬ forall history final, Run [1, 2, 3] history final ->
      Permanent [1, 2, 3] history final := by
  intro permanent
  have checked : (execute [1, 2, 3] replacement).any (fun result =>
      result.1.any (fun transition =>
        decide (transition.event ≠ .restart 2 ∧
          1 ≤ (transition.source.nodes 2).state.commitIndex ∧
          (transition.target.nodes 2).state.log.get 1 ≠
            (transition.source.nodes 2).state.log.get 1))) = true := by decide +kernel
  rcases exists_run checked with ⟨history, final, run, holds⟩
  rcases List.any_eq_true.mp holds with ⟨transition, listed, replaced⟩
  rcases of_decide_eq_true replaced with ⟨running, committed, different⟩
  have unchanged := (permanent history final run).2 transition listed 2 (by decide) running
  exact different (unchanged.2 1 committed)

end Results
end Cluster
end RaftStore
