import RaftStore.Cluster.Lifetime
import RaftStore.Raft.Effects

namespace RaftStore
namespace Cluster

open Raft Systems RaftNode

/-!
# The order of application

One node within one lifetime, under any calls and any messages.  A call applies
the entries between the old and the new value of `last_applied`, in order, and
the log reaches the new value at that moment.  So over a whole lifetime the
entries are applied in the order of their indices, each at most once, and no
index is passed but with its command applied or with a no-op in the log.

A log may be cut below `last_applied` by a message that conflicts with it.  The
counter then stays where it is, and application goes on behind it.
-/

/-! ## One lifetime -/

/-- A node from its construction on, with or without a state file.  A call that
panics ends the lifetime. -/
def oneLifetime (id : Nat) (peers : List Nat) : System RaftNode Call (List Action) where
  Starts node := node = RaftNode.new id peers ∨
    Exists fun persister => Exists fun (loaded : Except Unit (Option PersistentState)) =>
      node = RaftNode.withPersistence id peers persister loaded
  step node call := (call.run node).toOption

/-- All applications of a lifetime, in the order of time. -/
def applicationsIn (history : List (Systems.Transition RaftNode Call (List Action))) :
    List (Nat × LogCommand) :=
  history.reverse.flatMap (fun transition => applicationsOf transition.output)

/-! ## One call -/

/-- What a call applies: the entries between the old and the new value of
`last_applied`, which are all in the log. -/
structure Drains (node after : RaftNode) (actions : List Action) : Prop where
  forward : node.state.lastApplied ≤ after.state.lastApplied
  applied : applicationsOf actions =
    applicationsOf (after.applications node.state.lastApplied after.state.lastApplied)
  inside : node.state.lastApplied < after.state.lastApplied ->
    after.state.lastApplied ≤ after.state.log.lastIndex

section Calls

variable {node after : RaftNode} {actions : List Action}

/-- Without commands there are no applications. -/
theorem applicationsOf_eq_nil (silent : commandsOf actions = []) : applicationsOf actions = [] := by
  rw [commandsOf, List.filterMap_eq_nil_iff] at silent
  rw [applicationsOf, List.filterMap_eq_nil_iff]
  intro action listed
  have none := silent action listed
  cases action with
  | applyEntry index command => cases none
  | _ => rfl

/-- A call that applies nothing and leaves the counter alone. -/
theorem drains_silent (applied : after.state.lastApplied = node.state.lastApplied)
    (silent : commandsOf actions = []) : Drains node after actions where
  forward := Nat.le_of_eq applied.symm
  applied := by
    rw [applied, applications_eq_nil _ (Nat.le_refl _), applicationsOf_eq_nil silent]
    rfl
  inside := fun moved => by omega

/-- The calls before and after the commit rule neither apply nor count. -/
theorem Drains.congr {middle : RaftNode} {emitted : List Action}
    (drains : Drains middle after emitted)
    (applied : middle.state.lastApplied = node.state.lastApplied)
    (same : applicationsOf actions = applicationsOf emitted) : Drains node after actions where
  forward := by rw [← applied]; exact drains.forward
  applied := by rw [same, ← applied]; exact drains.applied
  inside := by rw [← applied]; exact drains.inside

/-- Committing up to an index of the log applies all that is still to be applied. -/
theorem drains_commit {high : Nat} (inside : high ≤ node.state.log.lastIndex) :
    Drains node (node.withCommit (max node.state.lastApplied high) high)
      (node.applications node.state.lastApplied high) where
  forward := Nat.le_max_left _ _
  applied := by
    change _ = applicationsOf (node.applications node.state.lastApplied
      (max node.state.lastApplied high))
    rcases Nat.le_total high node.state.lastApplied with behind | ahead
    · rw [Nat.max_eq_left behind, applications_eq_nil _ behind,
        applications_eq_nil _ (Nat.le_refl _)]
    · rw [Nat.max_eq_right ahead]
  inside := by
    intro moved
    change max node.state.lastApplied high ≤ node.state.log.lastIndex
    change node.state.lastApplied < max node.state.lastApplied high at moved
    omega

theorem followCommit_drains (node : RaftNode) (leaderCommit : Nat) :
    Drains node (node.followCommit leaderCommit).1 (node.followCommit leaderCommit).2 := by
  rw [followCommit_eq]
  split
  · exact drains_commit (Nat.min_le_right _ _)
  · exact drains_silent rfl rfl

theorem maybeAdvanceCommitIndex_drains (node : RaftNode) :
    Drains node node.maybeAdvanceCommitIndex.1 node.maybeAdvanceCommitIndex.2 := by
  rw [maybeAdvanceCommitIndex_eq]
  rcases node.scannedCommit_cases with unmoved | committable
  · rw [if_neg (by omega)]
    exact drains_silent rfl rfl
  · rw [if_pos committable.fresh]
    exact drains_commit committable.inside

theorem tick_drains (ticked : node.tick = .ok (after, actions)) : Drains node after actions := by
  refine drains_silent ?_ (tick_silent ticked).commands
  rcases tick_cases ticked with ⟨_, rfl, rfl⟩ | ⟨_, _, rfl, sent⟩ | ⟨_, _, started⟩
  · rfl
  · rfl
  · rcases startElection_eq_ok.mp started with ⟨_, result⟩
    split at result <;> cases result <;> rfl

theorem handleRequestVote_drains (node : RaftNode) (request : RequestVoteRequest) :
    Drains node (node.handleRequestVote request).1 (node.handleRequestVote request).2 := by
  have raised : (node.raiseTerm request.term).state.lastApplied = node.state.lastApplied := by
    unfold raiseTerm
    split <;> simp
  refine drains_silent ?_ (node.handleRequestVote_silent request).commands
  rcases node.handleRequestVote_cases request with ⟨_, equal⟩ | ⟨_, _, _, equal⟩ | ⟨_, _, equal⟩
  · rw [equal]
  · rw [equal]
    exact raised
  · rw [equal]
    exact raised

theorem handleRequestVoteResponse_drains (node : RaftNode) (sender : Nat)
    (response : RequestVoteResponse) :
    Drains node (node.handleRequestVoteResponse sender response).1
      (node.handleRequestVoteResponse sender response).2 := by
  have counted : (node.countVote sender response).state.lastApplied = node.state.lastApplied := by
    rw [countVote_state]
  refine drains_silent ?_ (node.handleRequestVoteResponse_silent sender response).commands
  rcases node.handleRequestVoteResponse_cases sender response with
    equal | ⟨_, _, equal⟩ | ⟨_, _, equal⟩
  · rw [equal]
  · rw [equal]
    simp
  · rw [equal]
    split <;> exact counted

theorem handleAppendEntries_drains {request : AppendEntriesRequest}
    (handled : node.handleAppendEntries request = .ok (after, actions)) :
    Drains node after actions := by
  rcases handleAppendEntries_cases handled with
    ⟨_, rfl, rfl⟩ | ⟨_, _, rfl, rfl⟩ | ⟨_, _, inserted, ok, rfl, rfl⟩
  · exact drains_silent rfl rfl
  · exact drains_silent (by simp) rfl
  · apply (followCommit_drains inserted request.leaderCommit).congr
    · rw [(insertEntries_frame ok).applied]
      simp
    · rw [applicationsOf_append]
      exact List.append_nil _

theorem handleAppendEntriesResponse_drains {sender : Nat} {response : AppendEntriesResponse}
    (handled : node.handleAppendEntriesResponse sender response = .ok (after, actions)) :
    Drains node after actions := by
  rcases handleAppendEntriesResponse_cases handled with
    ⟨_, rfl, rfl⟩ | ⟨_, _, rfl, rfl⟩ | ⟨_, _, _, recorded, ok, equal⟩ | ⟨_, _, _, ok, rfl⟩
  · exact drains_silent rfl rfl
  · exact drains_silent (by simp) rfl
  · rcases recordMatch_eq_ok ok with ⟨matchIndex, nextIndex, rfl, _⟩
    rw [Prod.ext_iff] at equal
    rcases equal with ⟨rfl, rfl⟩
    exact (maybeAdvanceCommitIndex_drains _).congr rfl rfl
  · rcases recordRejection_eq_ok ok with ⟨nextIndex, rfl, _⟩
    exact drains_silent rfl rfl

theorem propose_drains {command : LogCommand} {emitted : Option (List Action)}
    (proposed : node.propose command = .ok (after, emitted)) :
    Drains node after (emitted.getD []) := by
  rcases propose_cases proposed with ⟨_, rfl, rfl⟩ | ⟨_, _, rfl, rfl⟩
  · exact drains_silent rfl rfl
  · refine (maybeAdvanceCommitIndex_drains (node.withEntry command)).congr rfl ?_
    rw [Option.getD_some, applicationsOf_append,
      applicationsOf_eq_nil (commandsOf_replicateToAllPeers _), List.nil_append]

theorem Call.drains {call : Call} (ran : call.run node = .ok (after, actions)) :
    Drains node after actions := by
  cases call with
  | tick => exact tick_drains ran
  | propose command =>
      rcases Outcome.map_eq_ok.mp ran with ⟨⟨proposed, emitted⟩, ok, equal⟩
      cases equal
      exact propose_drains ok
  | receive message =>
      cases dispatch_handled ran with
      | requestVote sender request => exact handleRequestVote_drains node request
      | requestVoteResponse sender response =>
          exact handleRequestVoteResponse_drains node sender response
      | appendEntries sender request returned => exact handleAppendEntries_drains returned
      | appendEntriesResponse sender response returned =>
          exact handleAppendEntriesResponse_drains returned

/-- The indices at which entries are applied are among those that are tried. -/
theorem applied_sublist (node : RaftNode) (indices : List Nat) :
    ((applicationsOf (indices.flatMap node.applyAction)).map Prod.fst).Sublist indices := by
  induction indices with
  | nil => exact .slnil
  | cons index rest inductionHypothesis =>
      rw [List.flatMap_cons, applicationsOf_append, List.map_append]
      have first : ((applicationsOf (node.applyAction index)).map Prod.fst).Sublist [index] := by
        unfold applyAction
        split
        · exact List.nil_sublist _
        · exact List.nil_sublist _
        · exact List.Sublist.refl _
      exact first.append inductionHypothesis

/-- A call applies in order, and only what lies between the two values of the
counter. -/
theorem Drains.ordered (drains : Drains node after actions) :
    ((applicationsOf actions).map Prod.fst).Pairwise (· < ·) ∧
      forall index, index ∈ (applicationsOf actions).map Prod.fst ->
        node.state.lastApplied < index ∧ index ≤ after.state.lastApplied := by
  have sublist := applied_sublist after (List.range' (node.state.lastApplied + 1)
    (after.state.lastApplied - node.state.lastApplied))
  rw [drains.applied]
  constructor
  · exact (List.pairwise_lt_range' 1).sublist sublist
  · intro index listed
    have bounds := List.mem_range'_1.mp (sublist.subset listed)
    have forward := drains.forward
    omega

theorem mem_applicationsOf {index : Nat} {command : LogCommand} :
    (index, command) ∈ applicationsOf actions <-> Action.applyEntry index command ∈ actions := by
  rw [applicationsOf, List.mem_filterMap]
  constructor
  · rintro ⟨action, listed, equal⟩
    cases action with
    | applyEntry _ _ =>
        cases equal
        exact listed
    | _ => cases equal
  · intro listed
    exact ⟨_, listed, rfl⟩

/-- A call applies what is in the log at its end. -/
theorem Drains.get (drains : Drains node after actions) {index : Nat} {command : LogCommand}
    (emitted : Action.applyEntry index command ∈ actions) :
    Exists fun term => after.state.log.get index = some ⟨term, command⟩ := by
  rw [← mem_applicationsOf, drains.applied, mem_applicationsOf, mem_applications] at emitted
  rcases emitted with ⟨_, _, _, entry, present, _, same⟩
  cases same
  exact ⟨entry.term, present⟩

/-- An index that a call passes has its command applied or holds a no-op. -/
theorem Drains.passes (drains : Drains node after actions) {index : Nat}
    (above : node.state.lastApplied < index) (reached : index ≤ after.state.lastApplied) :
    (Exists fun command => Action.applyEntry index command ∈ actions) ∨
      Exists fun term => after.state.log.get index = some ⟨term, .noop⟩ := by
  have inside := drains.inside (by omega)
  have within : index < after.state.log.entries.length := by
    unfold RaftLog.lastIndex at inside
    omega
  have present : after.state.log.get index = some after.state.log.entries[index] :=
    List.getElem?_eq_getElem within
  by_cases empty : after.state.log.entries[index].command = .noop
  · exact Or.inr ⟨after.state.log.entries[index].term, by rw [present, ← empty]⟩
  · refine Or.inl ⟨after.state.log.entries[index].command, ?_⟩
    rw [← mem_applicationsOf, drains.applied, mem_applicationsOf, mem_applications]
    exact ⟨index, above, reached, _, present, empty, rfl⟩

end Calls

/-! ## A whole lifetime -/

section Lifetime

variable {id : Nat} {peers : List Nat}
  {history : List (Systems.Transition RaftNode Call (List Action))} {final : RaftNode}

/-- What has been applied at some moment of a lifetime. -/
structure InOrder (history : List (Systems.Transition RaftNode Call (List Action)))
    (node : RaftNode) : Prop where
  increasing : ((applicationsIn history).map Prod.fst).Pairwise (· < ·)
  bounded : forall index, index ∈ (applicationsIn history).map Prod.fst ->
    index ≤ node.state.lastApplied
  present : forall transition, transition ∈ history -> forall index command,
    Action.applyEntry index command ∈ transition.output ->
      Exists fun term => transition.target.state.log.get index = some ⟨term, command⟩
  passed : forall index, 1 ≤ index -> index ≤ node.state.lastApplied ->
    Exists fun transition => transition ∈ history ∧
      transition.source.state.lastApplied < index ∧
      index ≤ transition.target.state.lastApplied ∧
      ((Exists fun command => Action.applyEntry index command ∈ transition.output) ∨
        Exists fun term => transition.target.state.log.get index = some ⟨term, .noop⟩)

theorem inOrder_start {node : RaftNode} (nothing : node.state.lastApplied = 0) :
    InOrder [] node where
  increasing := List.Pairwise.nil
  bounded := fun index listed => by cases listed
  present := fun transition listed => by cases listed
  passed := fun index positive below => by omega

/-- One call carries the order on. -/
theorem InOrder.next {node after : RaftNode} {actions : List Action} {call : Call}
    (ordered : InOrder history node) (drains : Drains node after actions) :
    InOrder (⟨node, call, actions, after⟩ :: history) after := by
  have later : applicationsIn (⟨node, call, actions, after⟩ :: history) =
      applicationsIn history ++ applicationsOf actions := by
    simp [applicationsIn]
  rcases drains.ordered with ⟨increasing, bounds⟩
  refine ⟨?_, ?_, ?_, ?_⟩
  · rw [later, List.map_append, List.pairwise_append]
    refine ⟨ordered.increasing, increasing, ?_⟩
    intro earlier listed index added
    exact Nat.lt_of_le_of_lt (ordered.bounded earlier listed) (bounds index added).1
  · intro index listed
    rw [later, List.map_append, List.mem_append] at listed
    rcases listed with before | added
    · exact Nat.le_trans (ordered.bounded index before) drains.forward
    · exact (bounds index added).2
  · intro transition listed index command emitted
    rcases List.mem_cons.mp listed with rfl | before
    · exact drains.get emitted
    · exact ordered.present transition before index command emitted
  · intro index positive below
    by_cases old : index ≤ node.state.lastApplied
    · rcases ordered.passed index positive old with ⟨transition, listed, found⟩
      exact ⟨transition, List.mem_cons_of_mem _ listed, found⟩
    · have above : node.state.lastApplied < index := Nat.lt_of_not_le old
      exact ⟨_, List.mem_cons_self, above, below, drains.passes above below⟩

/-- **Entries are applied in order, once and without gaps**, in every lifetime of a
node. -/
theorem applied_in_order (run : (oneLifetime id peers).Run history final) :
    InOrder history final := by
  induction run with
  | start begins =>
      rcases begins with rfl | ⟨persister, loaded, rfl⟩
      · exact inOrder_start rfl
      · exact inOrder_start (awakened_withPersistence id peers persister loaded).applied
  | next run stepped inductionHypothesis =>
      exact inductionHypothesis.next (Call.drains (toOption_eq_some.mp stepped))

set_option maxRecDepth 100000 in
/-- A node alone elects itself and applies what is proposed to it. -/
theorem applied_in_order_alone :
    Exists fun history => Exists fun final =>
      (oneLifetime 1 [1]).Run history final ∧
        applicationsIn history = [(1, .put "k" "a"), (3, .delete "k")] ∧ InOrder history final := by
  have checked : ((oneLifetime 1 [1]).execute (List.replicate 52 .tick ++
      [.propose (.put "k" "a"), .propose .noop, .propose (.delete "k")])
      (RaftNode.new 1 [1])).any (fun result =>
        decide (applicationsIn result.1 = [(1, .put "k" "a"), (3, .delete "k")])) = true := by
    decide +kernel
  rcases System.exists_run (Or.inl rfl) checked with ⟨history, final, run, holds⟩
  exact ⟨history, final, run, of_decide_eq_true holds, applied_in_order run⟩

end Lifetime
end Cluster
end RaftStore
