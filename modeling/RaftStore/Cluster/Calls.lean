import RaftStore.Cluster.Lifetime

namespace RaftStore
namespace Cluster

open Raft Systems

/-!
# One node under any calls

One node whose saves all succeed, called in any order with any messages and
restarted at any time.  Nothing is assumed of what the messages say.

A call that returns keeps a node steady: its log has the sentinel and fits a
vector, its two counters fit an index, and its file holds what it has in memory.
Which calls return is decided by the state before the call, see `Call.Safe`.
-/

/-! ## Calls and restarts -/

/-- What happens to the node: a public call, or a new process on its directory. -/
inductive Occurrence where
  | call (made : Call)
  | restart
  deriving DecidableEq, Repr

/-- The node that a new process makes on the directory of the old one.  A node
without persistence leaves nothing behind. -/
def reborn (id : Nat) (peers : List Nat) (node : RaftNode) : RaftNode :=
  match node.persister with
  | none => RaftNode.new id peers
  | some persister =>
      RaftNode.withPersistence id peers persister (.ok persister.load : Except Unit _)

/-- One occurrence.  A call that panics takes no step. -/
def Occurrence.step (id : Nat) (peers : List Nat) (node : RaftNode) :
    Occurrence -> Option (RaftNode × List Action)
  | .call made => (made.run node).toOption
  | .restart => some (reborn id peers node, [])

/-- The node as a system.  It begins without persistence or on an empty directory. -/
def solitude (id : Nat) (peers : List Nat) : System RaftNode Occurrence (List Action) where
  Starts node := node = RaftNode.new id peers ∨
    node = RaftNode.withPersistence id peers .new (.ok none : Except Unit _)
  step := Occurrence.step id peers

/-- The runs of one node. -/
abbrev Solitary (id : Nat) (peers : List Nat) :
    List (Systems.Transition RaftNode Occurrence (List Action)) -> RaftNode -> Prop :=
  (solitude id peers).Run

/-! ## Steady nodes -/

/-- The log has its sentinel, and everything that is counted fits. -/
structure Steady (node : RaftNode) : Prop where
  sentinel : node.state.log.HasSentinel
  fits : node.state.log.entries.length ≤ vecCapacity
  commit : node.state.commitIndex ≤ vecCapacity
  applied : node.state.lastApplied ≤ vecCapacity

theorem Steady.kept {node : RaftNode} (steady : Steady node) : node.state.log.entries ≠ [] := by
  rw [steady.sentinel]
  exact List.cons_ne_nil _ _

/-- A saved log that a node can go on with. -/
def Loadable (state : PersistentState) : Prop :=
  (RaftLog.mk state.log).HasSentinel ∧ state.log.length ≤ vecCapacity

/-- A node can go on with everything it has ever saved. -/
def KeepsLoadable (node : RaftNode) : Prop :=
  forall state, state ∈ savesOf node -> Loadable state

/-- What a call that returns does to a steady node.  It saves the log as it was or
as it is afterwards. -/
structure Maintains (node after : RaftNode) : Prop where
  steady : Steady after
  term : node.state.currentTerm ≤ after.state.currentTerm
  saved : node.Saved -> after.Saved
  logs : forall state, state ∈ savesOf after -> state ∈ savesOf node ∨
    state.log = node.state.log.entries ∨ state.log = after.state.log.entries
  persistence : after.persister.isSome = node.persister.isSome

/-- A call leaves loadable saves. -/
theorem Maintains.loadable {node after : RaftNode} (maintains : Maintains node after)
    (steady : Steady node) (records : KeepsLoadable node) : KeepsLoadable after := by
  intro state member
  unfold Loadable
  rcases maintains.logs state member with older | before | behind
  · exact records state older
  · rw [before]
    exact ⟨steady.sentinel, steady.fits⟩
  · rw [behind]
    exact ⟨maintains.steady.sentinel, maintains.steady.fits⟩

/-- Two changes, one of which leaves the log alone. -/
theorem Maintains.trans {first second third : RaftNode} (lower : Maintains first second)
    (upper : Maintains second third)
    (kept : second.state.log = first.state.log ∨ third.state.log = second.state.log) :
    Maintains first third where
  steady := upper.steady
  term := lower.term.trans upper.term
  saved := fun saved => upper.saved (lower.saved saved)
  logs := by
    intro state member
    rcases upper.logs state member with older | middle | last
    · rcases lower.logs state older with oldest | first | middle
      · exact Or.inl oldest
      · exact Or.inr (Or.inl first)
      · rcases kept with same | same
        · exact Or.inr (Or.inl (by rw [middle, same]))
        · exact Or.inr (Or.inr (by rw [middle, same]))
    · rcases kept with same | same
      · exact Or.inr (Or.inl (by rw [middle, same]))
      · exact Or.inr (Or.inr (by rw [middle, same]))
    · exact Or.inr (Or.inr last)
  persistence := upper.persistence.trans lower.persistence

section Handlers

variable {node after : RaftNode} {actions : List Action}

/-- A change that leaves the counters, the file and what is in it alone. -/
theorem Steady.maintains_same (steady : Steady node) (samePersister : after.persister = node.persister)
    (sameState : after.persistentState = node.persistentState)
    (sameCommit : after.state.commitIndex = node.state.commitIndex)
    (sameApplied : after.state.lastApplied = node.state.lastApplied) : Maintains node after := by
  have sameLog : after.state.log.entries = node.state.log.entries :=
    congrArg PersistentState.log sameState
  have sameTerm : after.state.currentTerm = node.state.currentTerm :=
    congrArg PersistentState.currentTerm sameState
  refine ⟨⟨?_, ?_, ?_, ?_⟩, Nat.le_of_eq sameTerm.symm, ?_, ?_, by rw [samePersister]⟩
  · have sentinel := steady.sentinel
    unfold RaftLog.HasSentinel RaftLog.body at sentinel ⊢
    rw [sameLog]
    exact sentinel
  · rw [sameLog]
    exact steady.fits
  · rw [sameCommit]
    exact steady.commit
  · rw [sameApplied]
    exact steady.applied
  · exact fun saved => saved.congr samePersister sameState
  · intro state member
    rw [savesOf, samePersister] at member
    exact Or.inl member

/-- A change that is saved at once. -/
theorem maintains_persist (samePersister : after.persister = node.persister)
    (sentinel : after.state.log.HasSentinel) (fits : after.state.log.entries.length ≤ vecCapacity)
    (commit : after.state.commitIndex ≤ vecCapacity) (applied : after.state.lastApplied ≤ vecCapacity)
    (term : node.state.currentTerm ≤ after.state.currentTerm) : Maintains node after.persist := by
  have same : after.persist.persister.isSome = after.persister.isSome := by
    rw [RaftNode.persist_persister, Option.isSome_map]
  refine ⟨⟨sentinel, fits, commit, applied⟩, term, ?_, ?_, by rw [same, samePersister]⟩
  · intro saved
    apply RaftNode.saved_persist
    rw [samePersister]
    exact saved.isSome
  · intro state member
    unfold savesOf at member
    rw [RaftNode.persist_persister, samePersister] at member
    cases present : node.persister with
    | none =>
        rw [present] at member
        exact (List.not_mem_nil member).elim
    | some persister =>
        rw [present] at member
        rcases List.mem_cons.mp member with rfl | older
        · exact Or.inr (Or.inr rfl)
        · left
          rw [savesOf, present]
          exact older

/-- A saved change of the term, the vote and what is not saved. -/
theorem Steady.maintains_persist_same (steady : Steady node)
    (samePersister : after.persister = node.persister) (sameLog : after.state.log = node.state.log)
    (sameCommit : after.state.commitIndex = node.state.commitIndex)
    (sameApplied : after.state.lastApplied = node.state.lastApplied)
    (term : node.state.currentTerm ≤ after.state.currentTerm) : Maintains node after.persist := by
  apply maintains_persist samePersister
  · rw [sameLog]
    exact steady.sentinel
  · rw [sameLog]
    exact steady.fits
  · rw [sameCommit]
    exact steady.commit
  · rw [sameApplied]
    exact steady.applied
  · exact term

theorem Steady.maintains_stepDown (steady : Steady node) (term : Nat) :
    Maintains node (node.stepDown term) :=
  steady.maintains_persist_same rfl (by simp) (by simp) (by simp) (by simp)

theorem Steady.maintains_acceptLeader (steady : Steady node) (request : AppendEntriesRequest) :
    Maintains node (node.acceptLeader request) :=
  steady.maintains_persist_same rfl (by simp [RaftNode.resetElectionTimeout])
    (by simp [RaftNode.resetElectionTimeout]) (by simp [RaftNode.resetElectionTimeout])
    (by simp [RaftNode.resetElectionTimeout])

theorem Steady.maintains_raiseTerm (steady : Steady node) (term : Nat) :
    Maintains node (node.raiseTerm term) := by
  unfold RaftNode.raiseTerm
  split
  · exact steady.maintains_stepDown term
  · exact steady.maintains_same rfl rfl rfl rfl

/-- The two counters may move to any index of a vector. -/
theorem Steady.maintains_withCommit (steady : Steady node) {lastApplied commitIndex : Nat}
    (applied : lastApplied ≤ vecCapacity) (commit : commitIndex ≤ vecCapacity) :
    Maintains node (node.withCommit lastApplied commitIndex) where
  steady := ⟨steady.sentinel, steady.fits, commit, applied⟩
  term := Nat.le_refl _
  saved := id
  logs := fun _ member => Or.inl member
  persistence := rfl

theorem Steady.lastIndex_le (steady : Steady node) : node.state.log.lastIndex ≤ vecCapacity := by
  have fits := steady.fits
  unfold RaftLog.lastIndex
  omega

theorem Steady.maintains_followCommit (steady : Steady node) (leaderCommit : Nat) :
    Maintains node (node.followCommit leaderCommit).1 := by
  have bound := steady.lastIndex_le
  have applied := steady.applied
  rw [RaftNode.followCommit_eq]
  split
  · apply steady.maintains_withCommit <;> omega
  · exact steady.maintains_same rfl rfl rfl rfl

theorem Steady.maintains_maybeAdvanceCommitIndex (steady : Steady node) :
    Maintains node node.maybeAdvanceCommitIndex.1 := by
  have bound := steady.lastIndex_le
  have applied := steady.applied
  have commit := steady.commit
  rw [RaftNode.maybeAdvanceCommitIndex_eq]
  split
  · rcases node.scannedCommit_cases with unmoved | ⟨_, inside, _⟩ <;>
      apply steady.maintains_withCommit <;> omega
  · exact steady.maintains_same rfl rfl rfl rfl

theorem Steady.maintains_tick (steady : Steady node) (ticked : node.tick = .ok (after, actions)) :
    Maintains node after := by
  rcases RaftNode.tick_cases ticked with
    ⟨timeout, rfl, _⟩ | ⟨_, timeout, rfl, _⟩ | ⟨_, timeout, started⟩
  · exact steady.maintains_same rfl rfl rfl rfl
  · exact steady.maintains_same rfl rfl rfl rfl
  · rcases RaftNode.startElection_eq_ok.mp started with ⟨_, equal⟩
    have candidate : Maintains node
        ({ node with electionTimeout := timeout } : RaftNode).candidacy :=
      steady.maintains_persist_same rfl rfl rfl rfl (Nat.le_succ _)
    split at equal
    · cases equal
      exact candidate.trans (candidate.steady.maintains_same rfl rfl rfl rfl) (Or.inr rfl)
    · cases equal
      exact candidate

theorem Steady.maintains_handleRequestVote (steady : Steady node) (request : RequestVoteRequest) :
    Maintains node (node.handleRequestVote request).1 := by
  have raised := steady.maintains_raiseTerm request.term
  rcases node.handleRequestVote_cases request with
    ⟨_, equal⟩ | ⟨_, _, _, equal⟩ | ⟨_, _, equal⟩ <;> rw [equal]
  · exact steady.maintains_same rfl rfl rfl rfl
  · exact raised.trans (raised.steady.maintains_persist_same rfl rfl rfl rfl (Nat.le_refl _))
      (Or.inr rfl)
  · exact raised

theorem Steady.maintains_handleRequestVoteResponse (steady : Steady node) (sender : Nat)
    (response : RequestVoteResponse) :
    Maintains node (node.handleRequestVoteResponse sender response).1 := by
  have counted : Maintains node (node.countVote sender response) := by
    unfold RaftNode.countVote
    split <;> exact steady.maintains_same rfl rfl rfl rfl
  rcases node.handleRequestVoteResponse_cases sender response with
    equal | ⟨_, _, equal⟩ | ⟨_, _, equal⟩ <;> rw [equal]
  · exact steady.maintains_same rfl rfl rfl rfl
  · exact steady.maintains_stepDown response.term
  · split
    · exact counted.trans (counted.steady.maintains_same rfl rfl rfl rfl) (Or.inr rfl)
    · exact counted

/-- Cutting the log above its sentinel and appending keeps the sentinel. -/
theorem Steady.sentinel_withEntries (steady : Steady node) (request : AppendEntriesRequest)
    (matched : Nat) : (node.withEntries request matched).state.log.HasSentinel := by
  have cut : request.prevLogIndex + 1 + matched = request.prevLogIndex + matched + 1 := by omega
  change _ = _ :: List.tail _
  simp only [RaftNode.withEntries, RaftNode.persist]
  rw [steady.sentinel, cut, List.take_succ_cons]
  rfl

theorem Steady.maintains_insertEntries (steady : Steady node) {request : AppendEntriesRequest}
    (inserted : node.insertEntries request = .ok after) : Maintains node after := by
  have unchanged : Maintains node node := steady.maintains_same rfl rfl rfl rfl
  rcases RaftNode.insertEntries_cases steady.kept request with
    ⟨_, equal⟩ | ⟨_, _, equal⟩ | ⟨_, _, matched, _, ⟨_, equal⟩ | ⟨_, equal⟩⟩ <;>
    rw [equal] at inserted
  · cases inserted
    exact unchanged
  · cases inserted
  · cases inserted
    exact unchanged
  · split at inserted
    · next room =>
        cases inserted
        exact maintains_persist rfl (steady.sentinel_withEntries request matched) room steady.commit
          steady.applied (Nat.le_refl _)
    · cases inserted

theorem Steady.maintains_handleAppendEntries (steady : Steady node) {request : AppendEntriesRequest}
    (handled : node.handleAppendEntries request = .ok (after, actions)) : Maintains node after := by
  have accepted := steady.maintains_acceptLeader request
  rcases RaftNode.handleAppendEntries_cases handled with
    ⟨_, rfl, _⟩ | ⟨_, _, rfl, _⟩ | ⟨_, _, inserted, ok, rfl, _⟩
  · exact steady.maintains_same rfl rfl rfl rfl
  · exact accepted
  · have inserting := accepted.steady.maintains_insertEntries ok
    have followed : (inserted.followCommit request.leaderCommit).1.state.log =
        inserted.state.log := by
      rcases inserted.followCommit_shape request.leaderCommit with ⟨_, _, _, _, equal⟩
      rw [equal]
      rfl
    exact (accepted.trans inserting (Or.inl (by simp))).trans
      (inserting.steady.maintains_followCommit _) (Or.inr followed)

theorem Steady.maintains_handleAppendEntriesResponse (steady : Steady node) {sender : Nat}
    {response : AppendEntriesResponse}
    (handled : node.handleAppendEntriesResponse sender response = .ok (after, actions)) :
    Maintains node after := by
  rcases RaftNode.handleAppendEntriesResponse_cases handled with
    ⟨_, rfl, _⟩ | ⟨_, _, rfl, _⟩ | ⟨_, _, _, recorded, ok, equal⟩ | ⟨_, _, _, ok, _⟩
  · exact steady.maintains_same rfl rfl rfl rfl
  · exact steady.maintains_stepDown response.term
  · rcases RaftNode.recordMatch_eq_ok ok with ⟨matchIndex, nextIndex, rfl, _⟩
    have recording : Maintains node { node with state := { node.state with
        matchIndex := matchIndex, nextIndex := nextIndex } } :=
      steady.maintains_same rfl rfl rfl rfl
    have advanced := recording.steady.maintains_maybeAdvanceCommitIndex
    rw [← equal] at advanced
    exact recording.trans advanced (Or.inl rfl)
  · rcases RaftNode.recordRejection_eq_ok ok with ⟨nextIndex, rfl, _⟩
    exact steady.maintains_same rfl rfl rfl rfl

/-- A vector that has room for the entry takes it. -/
theorem Steady.maintains_withEntry (steady : Steady node) (command : LogCommand)
    (room : node.state.log.entries.length + 1 ≤ vecCapacity) :
    Maintains node (node.withEntry command) := by
  refine maintains_persist rfl ?_ ?_ steady.commit steady.applied (Nat.le_refl _)
  · change _ = _ :: List.tail _
    simp only
    rw [steady.sentinel]
    rfl
  · simpa using room

theorem Steady.maintains_propose (steady : Steady node) {command : LogCommand}
    {emitted : Option (List Action)} (proposed : node.propose command = .ok (after, emitted)) :
    Maintains node after := by
  rcases RaftNode.propose_cases proposed with ⟨_, rfl, _⟩ | ⟨_, room, rfl, _⟩
  · exact steady.maintains_same rfl rfl rfl rfl
  · have appended := steady.maintains_withEntry command room
    have advanced : (node.withEntry command).maybeAdvanceCommitIndex.1.state.log =
        (node.withEntry command).state.log := by
      rcases (node.withEntry command).maybeAdvanceCommitIndex_shape with ⟨_, _, _, _, equal⟩
      rw [equal]
      rfl
    exact appended.trans appended.steady.maintains_maybeAdvanceCommitIndex (Or.inr advanced)

/-- Every call that returns keeps the node steady. -/
theorem Steady.maintains_call (steady : Steady node) {call : Call}
    (ran : call.run node = .ok (after, actions)) : Maintains node after := by
  cases call with
  | tick => exact steady.maintains_tick ran
  | propose command =>
      rcases Outcome.map_eq_ok.mp ran with ⟨⟨proposed, emitted⟩, ok, equal⟩
      cases equal
      exact steady.maintains_propose ok
  | receive message =>
      cases dispatch_handled ran with
      | requestVote sender request => exact steady.maintains_handleRequestVote request
      | requestVoteResponse sender vote =>
          exact steady.maintains_handleRequestVoteResponse sender vote
      | appendEntries sender request returned =>
          exact steady.maintains_handleAppendEntries returned
      | appendEntriesResponse sender reply returned =>
          exact steady.maintains_handleAppendEntriesResponse returned

end Handlers

/-! ## Restarts -/

section Restarts

variable {id : Nat} {peers : List Nat} {node : RaftNode}

/-- What a restart brings back from the file: the term, the vote and the log, in
a follower that has committed and applied nothing. -/
structure Revives (node back : RaftNode) : Prop where
  role : back.state.role = .follower
  term : back.state.currentTerm = node.state.currentTerm
  vote : back.state.votedFor = node.state.votedFor
  log : back.state.log = node.state.log
  commit : back.state.commitIndex = 0
  applied : back.state.lastApplied = 0

theorem Steady.revives (steady : Steady node) (saved : node.Saved) :
    Revives node (reborn id peers node) := by
  rcases saved with ⟨persister, present, held⟩
  unfold reborn
  rw [present]
  rcases held with held | ⟨held, initial⟩
  · simp only [held]
    exact ⟨rfl, rfl, rfl, RaftLog.fromEntries_entries steady.sentinel, rfl, rfl⟩
  · have term : node.state.currentTerm = 0 := congrArg PersistentState.currentTerm initial
    have vote : node.state.votedFor = none := congrArg PersistentState.votedFor initial
    have entries : node.state.log.entries = RaftLog.new.entries :=
      congrArg PersistentState.log initial
    have log : node.state.log = RaftLog.new := by
      cases held : node.state.log
      rw [held] at entries
      exact congrArg RaftLog.mk entries
    simp only [held]
    exact ⟨rfl, term.symm, vote.symm, log.symm, rfl, rfl⟩

theorem one_le_vecCapacity : 1 ≤ vecCapacity := by decide

theorem steady_new (id : Nat) (peers : List Nat) : Steady (RaftNode.new id peers) where
  sentinel := rfl
  fits := one_le_vecCapacity
  commit := Nat.zero_le _
  applied := Nat.zero_le _

/-- A node begins steady on any file whose log it can go on with. -/
theorem steady_withPersistence {ε : Type} (id : Nat) (peers : List Nat)
    (persister : StatePersister) {loaded : Except ε (Option PersistentState)}
    (loadable : forall state, loaded = .ok (some state) -> Loadable state) :
    Steady (RaftNode.withPersistence id peers persister loaded) := by
  have fresh := steady_new id peers
  unfold RaftNode.withPersistence
  split
  · next state =>
      rcases loadable state rfl with ⟨sentinel, fits⟩
      have same : RaftLog.fromEntries state.log = ⟨state.log⟩ := RaftLog.fromEntries_entries sentinel
      simp only [same]
      exact ⟨sentinel, fits, Nat.zero_le _, Nat.zero_le _⟩
  · exact ⟨fresh.sentinel, fresh.fits, Nat.zero_le _, Nat.zero_le _⟩

/-- What must survive a restart is in the file if there is one. -/
def Filed (node : RaftNode) : Prop :=
  node.persister.isSome -> node.Saved

theorem Steady.reborn (steady : Steady node) (filed : Filed node) :
    Steady (reborn id peers node) ∧ Filed (reborn id peers node) := by
  cases present : node.persister with
  | none =>
      rw [Cluster.reborn, present]
      exact ⟨steady_new id peers, fun enabled => nomatch enabled⟩
  | some persister =>
      have saved : node.Saved := filed (by rw [present]; rfl)
      have revives : Revives node (Cluster.reborn id peers node) := steady.revives saved
      have same : (Cluster.reborn id peers node).persistentState = node.persistentState := by
        unfold RaftNode.persistentState
        rw [revives.term, revives.vote, revives.log]
      refine ⟨⟨?_, ?_, ?_, ?_⟩, fun _ => saved.congr ?_ same⟩
      · rw [revives.log]
        exact steady.sentinel
      · rw [revives.log]
        exact steady.fits
      · rw [revives.commit]
        exact Nat.zero_le _
      · rw [revives.applied]
        exact Nat.zero_le _
      · simp only [Cluster.reborn, present]
        unfold RaftNode.withPersistence
        split <;> rfl

end Restarts

section Runs

variable {id : Nat} {peers : List Nat} {node : RaftNode}
  {history : List (Systems.Transition RaftNode Occurrence (List Action))}

/-- A node stays steady and its file stays current, whatever happens to it. -/
theorem Solitary.steady (run : Solitary id peers history node) : Steady node ∧ Filed node := by
  induction run with
  | start begins =>
      rcases begins with rfl | rfl
      · exact ⟨steady_new id peers, fun enabled => nomatch enabled⟩
      · exact ⟨steady_withPersistence id peers .new (fun _ impossible => nomatch impossible),
          fun _ => ⟨.new, rfl, Or.inr ⟨rfl, rfl⟩⟩⟩
  | @next _ node after occurrence actions _ stepped inductionHypothesis =>
      rcases inductionHypothesis with ⟨steady, filed⟩
      cases occurrence with
      | call made =>
          have maintains := steady.maintains_call (toOption_eq_some.mp stepped)
          refine ⟨maintains.steady, fun enabled => maintains.saved (filed ?_)⟩
          rw [← maintains.persistence]
          exact enabled
      | restart =>
          cases stepped
          exact steady.reborn filed

/-- **Disk before messages.**  Whenever a call on a node with persistence has
returned, its file holds its term, vote and log, or there is no file and the node
has its initial ones.  A new process on the directory is a follower with the same
term, vote and log that has committed and applied nothing. -/
theorem saved_when_returned (run : Solitary id peers history node)
    (enabled : node.persister.isSome) :
    node.Saved ∧ Revives node (reborn id peers node) := by
  rcases run.steady with ⟨steady, filed⟩
  exact ⟨filed enabled, steady.revives (filed enabled)⟩

end Runs

/-- A single node elects itself, appends an entry, restarts and is given another
log by a leader of term 5. -/
theorem saved_when_returned_replaced :
    Exists fun history => Exists fun node => Solitary 1 [1] history node ∧
      node.state.currentTerm = 5 ∧ node.state.log.body = [⟨5, .delete "k"⟩] ∧
      node.state.commitIndex = 1 ∧ node.Saved ∧ Revives node (reborn 1 [1] node) := by
  have checked : ((solitude 1 [1]).execute
      (List.replicate 60 (.call .tick) ++ [.call (.propose (.put "k" "v")), .restart,
        .call (.receive (.appendEntries 2 ⟨5, 2, 0, 0, [⟨5, .delete "k"⟩], 1⟩))])
      (RaftNode.withPersistence 1 [1] .new (.ok none : Except Unit _))).any (fun result =>
        decide (result.2.state.currentTerm = 5 ∧
          result.2.state.log.body = [⟨5, .delete "k"⟩] ∧ result.2.state.commitIndex = 1 ∧
          result.2.persister.isSome)) = true := by
    decide +kernel
  rcases System.exists_run (Or.inr rfl) checked with ⟨history, node, run, holds⟩
  rcases of_decide_eq_true holds with ⟨term, log, commit, enabled⟩
  exact ⟨history, node, run, term, log, commit, saved_when_returned run enabled⟩

/-! ## Failed saves and crashes -/

/-- The lives of one node that begin without a file.  Saves may fail or be cut, and
a crash may fall anywhere. -/
def exposure (id : Nat) (peers : List Nat) : System Lifetime Happening (List Action) where
  Starts life := life = .begin id peers .absent
  step := Lifetime.step id peers

/-- The node is reached by public calls from one of its constructors, on a
directory that only it has written to. -/
def Reached (id : Nat) (peers : List Nat) (node : RaftNode) : Prop :=
  (Exists fun history => Solitary id peers history node) ∨
  Exists fun history => Exists fun life : Lifetime =>
    (exposure id peers).Run history life ∧ life.node = node

/-- A file that a node can begin with. -/
def File.Loadable (file : File) : Prop :=
  forall state, file.load = .ok (some state) -> Cluster.Loadable state

theorem File.Loadable.write {file : File} (loadable : file.Loadable) {state : PersistentState}
    (good : Cluster.Loadable state) (write : Write) : (file.write state write).Loadable := by
  cases write with
  | complete =>
      intro read same
      cases same
      exact good
  | untouched => exact loadable
  | cut =>
      intro read same
      cases same

theorem File.Loadable.writes {file : File} (loadable : file.Loadable)
    {saves : List (PersistentState × Write)}
    (good : forall save, save ∈ saves -> Cluster.Loadable save.1) : (file.writes saves).Loadable := by
  induction saves generalizing file with
  | nil => exact loadable
  | cons save rest inductionHypothesis =>
      apply inductionHypothesis (loadable.write (good save List.mem_cons_self) save.2)
      exact fun later member => good later (List.mem_cons_of_mem _ member)

section Exposure

variable {id : Nat} {peers : List Nat} {node after : RaftNode}

theorem File.Loadable.issued {file : File} (loadable : file.Loadable)
    (records : KeepsLoadable after) (writes : List Write) :
    (file.writes ((issued node after).zip writes)).Loadable := by
  apply loadable.writes
  intro save member
  apply records
  have part := (List.of_mem_zip (a := save.1) (b := save.2) member).1
  exact List.mem_of_mem_take (List.mem_reverse.mp part)

/-- Also a call that panics leaves loadable saves only. -/
theorem Steady.loadable_last (steady : Steady node) (records : KeepsLoadable node) (call : Call) :
    KeepsLoadable (call.last node) := by
  unfold Call.last
  split
  · next after actions ran => exact (steady.maintains_call ran).loadable steady records
  · rcases call with _ | command | message
    · exact records
    · exact records
    · rcases message with ⟨_, _⟩ | ⟨_, _⟩ | ⟨_, request⟩ | ⟨_, _⟩
      · exact records
      · exact records
      · exact (steady.maintains_acceptLeader request).loadable steady records
      · exact records

/-- A node stays steady also when its saves fail and it crashes. -/
structure Lifetime.Steady (life : Lifetime) : Prop where
  node : Cluster.Steady life.node
  records : KeepsLoadable life.node
  file : life.file.Loadable

theorem Lifetime.steady_begin {file : File} (loadable : file.Loadable) :
    (Lifetime.begin id peers file).Steady where
  node := steady_withPersistence id peers .new loadable
  records := by
    intro state member
    have nothing : savesOf (Lifetime.begin id peers file).node = [] := by
      unfold Lifetime.begin savesOf RaftNode.withPersistence
      dsimp only
      split <;> rfl
    rw [nothing] at member
    exact (List.not_mem_nil member).elim
  file := loadable

theorem Lifetime.Steady.step {life later : Lifetime} {happening : Happening}
    {actions : List Action} (steady : life.Steady)
    (stepped : life.step id peers happening = some (later, actions)) : later.Steady := by
  cases happening with
  | returns call writes =>
      simp only [Lifetime.step] at stepped
      split at stepped
      · next after emitted ran =>
          split at stepped
          · cases stepped
            have maintains := steady.node.maintains_call ran
            have records := maintains.loadable steady.node steady.records
            exact ⟨maintains.steady, records, steady.file.issued records writes⟩
          · cases stepped
      · cases stepped
  | cuts call writes =>
      simp only [Lifetime.step] at stepped
      split at stepped
      · cases stepped
        exact steady_begin (steady.file.issued (steady.node.loadable_last steady.records call) writes)
      · cases stepped
  | crash =>
      cases stepped
      exact steady_begin steady.file

/-- Every node that can be reached is steady. -/
theorem Reached.steady (reached : Reached id peers node) : Steady node := by
  rcases reached with ⟨history, run⟩ | ⟨history, life, run, rfl⟩
  · exact run.steady.1
  · have steady : life.Steady := by
      induction run with
      | start begins =>
          rw [begins]
          exact Lifetime.steady_begin (fun _ impossible => nomatch impossible)
      | next _ stepped inductionHypothesis => exact inductionHypothesis.step stepped
    exact steady.node

end Exposure

/-! ## Calls that return -/

/-- The call meets no overflow and no full vector in this state: an election has a
next term, the log has room for what is appended to it, and the indices named by
an accepted request or by a reply that is recorded have a successor. -/
def Call.Safe (node : RaftNode) : Call -> Prop
  | .tick =>
      node.state.role ≠ .leader -> node.electionTimeout ≤ 1 ->
        node.state.currentTerm + 1 < wordSize
  | .propose _ =>
      node.state.role = .leader -> node.state.log.entries.length + 1 ≤ vecCapacity
  | .receive (.requestVote _ _) => True
  | .receive (.requestVoteResponse _ _) => True
  | .receive (.appendEntries _ request) =>
      node.state.currentTerm ≤ request.term ->
      node.state.log.termAt request.prevLogIndex = request.prevLogTerm ->
      request.entries ≠ [] ->
        request.prevLogIndex + 1 < wordSize ∧
        min node.state.log.entries.length (request.prevLogIndex + 1) + request.entries.length ≤
          vecCapacity
  | .receive (.appendEntriesResponse sender response) =>
      node.state.role = .leader -> response.term ≤ node.state.currentTerm ->
      sender ∈ node.state.nextIndex.map Prod.fst ->
        forall reported, response.matchIndex = some reported -> reported + 1 < wordSize

theorem checkedAdd_returns {left right : Nat} :
    (Exists fun sum => checkedAdd left right = .ok sum) <-> left + right < wordSize := by
  simp only [checkedAdd_eq_ok, exists_and_left, exists_eq, and_true]

section Returns

variable {node : RaftNode}

theorem tick_returns : (Exists fun result => node.tick = .ok result) <-> Call.tick.Safe node := by
  have election : (Exists fun result => node.tickElection = .ok result) <->
      (node.electionTimeout ≤ 1 -> node.state.currentTerm + 1 < wordSize) := by
    unfold RaftNode.tickElection
    simp only
    split
    · next waits => exact ⟨fun _ late => by omega, fun _ => ⟨_, rfl⟩⟩
    · next expired =>
        have late : node.electionTimeout ≤ 1 := by omega
        simp only [RaftNode.startElection_eq_ok, exists_and_left, exists_eq, and_true, late,
          forall_const]
  unfold RaftNode.tick Call.Safe
  cases node.state.role <;> simp [election]

theorem propose_returns (command : LogCommand) :
    (Exists fun result => node.propose command = .ok result) <->
      (Call.propose command).Safe node := by
  unfold RaftNode.propose Call.Safe
  by_cases leads : node.state.role = .leader
  · rw [if_neg (not_not.mpr leads)]
    refine (Outcome.returns_bind fun _ => ⟨_, rfl⟩).trans ?_
    simp only [RaftLog.append, RaftLog.appendEntries_eq_ok, leads, forall_const, exists_and_left,
      exists_eq, and_true, List.length_singleton]
  · rw [if_pos leads]
    exact ⟨fun _ leader => absurd leader leads, fun _ => ⟨_, rfl⟩⟩

theorem insertEntries_returns (steady : Steady node) (request : AppendEntriesRequest) :
    (Exists fun result => node.insertEntries request = .ok result) <->
      (request.entries ≠ [] -> request.prevLogIndex + 1 < wordSize ∧
        min node.state.log.entries.length (request.prevLogIndex + 1) + request.entries.length ≤
          vecCapacity) := by
  have room := steady.fits
  rcases RaftNode.insertEntries_cases steady.kept request with
    ⟨empty, equal⟩ | ⟨nonempty, long, equal⟩ |
      ⟨nonempty, short, matched, bound, ⟨all, equal⟩ | ⟨unfinished, equal⟩⟩ <;>
    rw [equal]
  · exact ⟨fun _ nonempty => absurd empty nonempty, fun _ => ⟨_, rfl⟩⟩
  · constructor
    · rintro ⟨_, impossible⟩
      cases impossible
    · intro safe
      have fits := (safe nonempty).1
      omega
  · have positive : 0 < request.entries.length := List.length_pos_iff.mpr nonempty
    exact ⟨fun _ _ => ⟨short, by omega⟩, fun _ => ⟨_, rfl⟩⟩
  · -- What was matched lies inside the log, so the new length does not depend on it.
    have length : (node.withEntries request matched).state.log.entries.length =
        min node.state.log.entries.length (request.prevLogIndex + 1) +
          request.entries.length := by
      simp only [RaftNode.withEntries, RaftNode.persist, List.length_append, List.length_take,
        List.length_drop]
      omega
    rw [length]
    split
    · next fits => exact ⟨fun _ _ => ⟨short, fits⟩, fun _ => ⟨_, rfl⟩⟩
    · next full =>
        constructor
        · rintro ⟨_, impossible⟩
          cases impossible
        · exact fun safe => absurd (safe nonempty).2 full

theorem handleAppendEntries_returns (steady : Steady node) (sender : Nat)
    (request : AppendEntriesRequest) :
    (Exists fun result => node.handleAppendEntries request = .ok result) <->
      (Call.receive (.appendEntries sender request)).Safe node := by
  have accepted := (steady.maintains_acceptLeader request).steady
  have sameLog : (node.acceptLeader request).state.log = node.state.log := by simp
  unfold RaftNode.handleAppendEntries Call.Safe
  by_cases stale : request.term < node.state.currentTerm
  · rw [if_pos stale]
    exact ⟨fun _ current => absurd stale (Nat.not_lt.mpr current), fun _ => ⟨_, rfl⟩⟩
  · rw [if_neg stale]
    simp only [sameLog]
    by_cases passes : node.state.log.termAt request.prevLogIndex = request.prevLogTerm
    · rw [if_neg (not_not.mpr passes)]
      refine (Outcome.returns_bind fun _ => ⟨_, rfl⟩).trans ?_
      rw [insertEntries_returns accepted request, sameLog]
      simp only [Nat.le_of_not_lt stale, passes, forall_const]
    · rw [if_pos passes]
      exact ⟨fun _ _ same => absurd same passes, fun _ => ⟨_, rfl⟩⟩

theorem recordMatch_returns (sender : Nat) (matchIndex : Option Nat) :
    (Exists fun result => node.recordMatch sender matchIndex = .ok result) <->
      (sender ∈ node.state.nextIndex.map Prod.fst ->
        forall reported, matchIndex = some reported -> reported + 1 < wordSize) := by
  cases matchIndex with
  | none => exact ⟨fun _ _ _ impossible => (nomatch impossible), fun _ => ⟨_, rfl⟩⟩
  | some reported =>
      rcases RaftNode.exists_updateFirst sender (fun _ => ⟨reported, rfl⟩) node.state.matchIndex with
        ⟨table, matched⟩
      unfold RaftNode.recordMatch
      simp only [matched, Option.some.injEq, forall_eq']
      rw [← RaftNode.updateFirst_returns (fun _ => checkedAdd_returns)]
      exact Outcome.returns_bind (fun _ => ⟨_, rfl⟩)

theorem backUp_returns (hint : Option Nat) (next : Nat) :
    (Exists fun result => RaftNode.backUp hint next = .ok result) <->
      (forall reported, hint = some reported -> reported + 1 < wordSize) := by
  cases hint with
  | none => exact ⟨fun _ _ impossible => (nomatch impossible), fun _ => ⟨_, rfl⟩⟩
  | some reported =>
      simp only [Option.some.injEq, forall_eq']
      exact checkedAdd_returns

theorem recordRejection_returns (sender : Nat) (hint : Option Nat) :
    (Exists fun result => node.recordRejection sender hint = .ok result) <->
      (sender ∈ node.state.nextIndex.map Prod.fst ->
        forall reported, hint = some reported -> reported + 1 < wordSize) := by
  unfold RaftNode.recordRejection
  refine (Outcome.returns_bind fun _ => ⟨_, rfl⟩).trans ?_
  exact RaftNode.updateFirst_returns (backUp_returns hint) _

theorem handleAppendEntriesResponse_returns (sender : Nat) (response : AppendEntriesResponse) :
    (Exists fun result => node.handleAppendEntriesResponse sender response = .ok result) <->
      (Call.receive (.appendEntriesResponse sender response)).Safe node := by
  unfold RaftNode.handleAppendEntriesResponse Call.Safe
  by_cases leads : node.state.role = .leader
  · rw [if_neg (not_not.mpr leads)]
    by_cases higher : response.term > node.state.currentTerm
    · rw [if_pos higher]
      exact ⟨fun _ _ bound => absurd higher (Nat.not_lt.mpr bound), fun _ => ⟨_, rfl⟩⟩
    · rw [if_neg higher]
      simp only [leads, Nat.le_of_not_lt higher, forall_const]
      cases response.success with
      | true =>
          rw [if_pos rfl]
          exact (Outcome.returns_bind fun _ => ⟨_, rfl⟩).trans (recordMatch_returns _ _)
      | false =>
          rw [if_neg (by simp)]
          exact (Outcome.returns_bind fun _ => ⟨_, rfl⟩).trans (recordRejection_returns _ _)
  · rw [if_pos leads]
    exact ⟨fun _ leader => absurd leader leads, fun _ => ⟨_, rfl⟩⟩

/-- A call on a steady node returns exactly when it is safe. -/
theorem Steady.returns_iff (steady : Steady node) (call : Call) :
    (Exists fun result => call.run node = .ok result) <-> call.Safe node := by
  cases call with
  | tick => exact tick_returns
  | propose command =>
      rw [← propose_returns command]
      exact Outcome.returns_map
  | receive message =>
      cases message with
      | requestVote sender request => exact ⟨fun _ => trivial, fun _ => ⟨_, rfl⟩⟩
      | requestVoteResponse sender response => exact ⟨fun _ => trivial, fun _ => ⟨_, rfl⟩⟩
      | appendEntries sender request => exact handleAppendEntries_returns steady sender request
      | appendEntriesResponse sender response =>
          exact handleAppendEntriesResponse_returns sender response

end Returns

/-! ## Sequences of calls -/

/-- The log has its sentinel, and the successors of its length and of the two
counters, which the model takes without a check, fit a word. -/
structure Unharmed (node : RaftNode) : Prop where
  sentinel : node.state.log.HasSentinel
  length : node.state.log.entries.length + 1 < wordSize
  commit : node.state.commitIndex + 1 < wordSize
  applied : node.state.lastApplied + 1 < wordSize

/-- The node withstands a sequence of calls: each one returns without lowering the
term, and the node is unharmed before, between and after them. -/
def Withstands : RaftNode -> List Call -> Prop
  | node, [] => Unharmed node
  | node, call :: rest => Unharmed node ∧ Exists fun after => Exists fun actions =>
      call.run node = .ok (after, actions) ∧
      node.state.currentTerm ≤ after.state.currentTerm ∧ Withstands after rest

/-- Each call of a sequence is safe in the state in which it is made. -/
def SafeAlong : RaftNode -> List Call -> Prop
  | _, [] => True
  | node, call :: rest => call.Safe node ∧ forall after actions,
      call.run node = .ok (after, actions) -> SafeAlong after rest

theorem Steady.unharmed {node : RaftNode} (steady : Steady node) : Unharmed node := by
  have small : vecCapacity + 1 < wordSize := by decide
  refine ⟨steady.sentinel, ?_, ?_, ?_⟩
  · exact Nat.lt_of_le_of_lt (Nat.succ_le_succ steady.fits) small
  · exact Nat.lt_of_le_of_lt (Nat.succ_le_succ steady.commit) small
  · exact Nat.lt_of_le_of_lt (Nat.succ_le_succ steady.applied) small

/-- A steady node withstands exactly the sequences of safe calls. -/
theorem Steady.withstands_iff {node : RaftNode} (steady : Steady node) (calls : List Call) :
    Withstands node calls <-> SafeAlong node calls := by
  induction calls generalizing node with
  | nil => exact ⟨fun _ => trivial, fun _ => steady.unharmed⟩
  | cons call rest inductionHypothesis =>
      constructor
      · rintro ⟨_, after, actions, ran, _, later⟩
        refine ⟨(steady.returns_iff call).mp ⟨_, ran⟩, fun other emitted again => ?_⟩
        have same : (after, actions) = (other, emitted) := Except.ok.inj (ran.symm.trans again)
        cases same
        exact (inductionHypothesis (steady.maintains_call ran).steady).mp later
      · rintro ⟨safe, later⟩
        rcases (steady.returns_iff call).mpr safe with ⟨⟨after, actions⟩, ran⟩
        have keeps := steady.maintains_call ran
        exact ⟨steady.unharmed, after, actions, ran, keeps.term,
          (inductionHypothesis keeps.steady).mpr (later after actions ran)⟩

end Cluster
end RaftStore
