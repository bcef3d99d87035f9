import RaftStore.Cluster.Run
import RaftStore.Raft.Handlers

namespace RaftStore
namespace Cluster

open Raft Systems

/-!
# The lifetimes of one node

One node, its state file, and a world that calls it, lets its writes fail and
crashes it anywhere.  The saves a handler issues are written one after the
other; a crash inside a handler cuts this sequence, and the node comes back
through `with_persistence` on whatever the file holds.

Nothing is assumed of the messages the node receives.
-/

/-! ## The state file -/

/-- What is at the path of the state file: nothing, the text of a saved state, or
a proper part of such a text, which is not a JSON document. -/
inductive File where
  | absent
  | whole (state : PersistentState)
  | torn

/-- `StatePersister::load`. -/
def File.load : File -> Except Unit (Option PersistentState)
  | .absent => .ok none
  | .whole state => .ok (some state)
  | .torn => .error ()

/-- How far `fs::write` got: to the end, not even to truncating the file, or to
somewhere in between. -/
inductive Write where
  | complete
  | untouched
  | cut
  deriving DecidableEq, Repr

/-- The file after one `StatePersister::save`. -/
def File.write (file : File) (state : PersistentState) : Write -> File
  | .complete => .whole state
  | .untouched => file
  | .cut => .torn

/-- The file after several saves, the first one first. -/
def File.writes (file : File) (saves : List (PersistentState × Write)) : File :=
  saves.foldl (fun file save => file.write save.1 save.2) file

/-! ## Calls and crashes -/

/-- A public call on the node. -/
inductive Call where
  | tick
  | propose (command : LogCommand)
  | receive (message : NetworkMessage)
  deriving DecidableEq, Repr

/-- What the node does at a call. -/
def Call.run (node : RaftNode) : Call -> Outcome (RaftNode × List Action)
  | .tick => node.tick
  | .propose command =>
      (node.propose command).map (fun result => (result.1, result.2.getD []))
  | .receive message => dispatch node message

/-- The node at the moment a call panics, as far as its saves go: only an
`AppendEntries` request that was accepted has saved before it can panic. -/
def Call.panicked (node : RaftNode) : Call -> RaftNode
  | .tick => node
  | .propose _ => node
  | .receive (.requestVote _ _) => node
  | .receive (.requestVoteResponse _ _) => node
  | .receive (.appendEntries _ request) => node.acceptLeader request
  | .receive (.appendEntriesResponse _ _) => node

/-- The node at the end of a call, or where the call panics. -/
def Call.last (node : RaftNode) (call : Call) : RaftNode :=
  match call.run node with
  | .ok (after, _) => after
  | .error _ => call.panicked node

/-- The saves issued by a node so far, newest first. -/
def savesOf (node : RaftNode) : List PersistentState :=
  (node.persister.map StatePersister.saves).getD []

/-- The saves issued between two moments, oldest first. -/
def issued (before after : RaftNode) : List PersistentState :=
  ((savesOf after).take ((savesOf after).length - (savesOf before).length)).reverse

/-- A node and its file. -/
structure Lifetime where
  node : RaftNode
  file : File

/-- The node that `with_persistence` makes from a file. -/
def Lifetime.begin (id : Nat) (peers : List Nat) (file : File) : Lifetime where
  node := RaftNode.withPersistence id peers .new file.load
  file := file

/-- What can happen next: a call returns, its saves having ended in the given
ways; a crash or a panic cuts a call after some of its saves; or a crash falls
between two calls. -/
inductive Happening where
  | returns (call : Call) (writes : List Write)
  | cuts (call : Call) (writes : List Write)
  | crash
  deriving DecidableEq, Repr

/-- One happening.  Only a call that returns has actions.  A failed save is
reported on the error stream and otherwise ignored, as in the source. -/
def Lifetime.step (id : Nat) (peers : List Nat) (life : Lifetime) :
    Happening -> Option (Lifetime × List Action)
  | .returns call writes =>
      match call.run life.node with
      | .ok (after, actions) =>
          if writes.length = (issued life.node after).length then
            some (⟨after, life.file.writes ((issued life.node after).zip writes)⟩, actions)
          else none
      | .error _ => none
  | .cuts call writes =>
      if writes.length ≤ (issued life.node (call.last life.node)).length then
        some (.begin id peers
          (life.file.writes ((issued life.node (call.last life.node)).zip writes)), [])
      else none
  | .crash => some (.begin id peers life.file, [])

/-- The lives of one node as a system.  They begin with any file. -/
def lifetimes (id : Nat) (peers : List Nat) : System Lifetime Happening (List Action) where
  Starts life := Exists fun file => life = .begin id peers file
  step := Lifetime.step id peers

/-- A happening with the actions returned at it. -/
abbrev Episode := Systems.Transition Lifetime Happening (List Action)

/-- The lives of one node. -/
abbrev Lives (id : Nat) (peers : List Nat) : List Episode -> Lifetime -> Prop :=
  (lifetimes id peers).Run

/-- All actions returned in a history. -/
def returned (history : List Episode) : List Action :=
  history.flatMap Systems.Transition.output

/-- The term of the message an action sends. -/
def termOf : Action -> Option Nat
  | .sendRequestVote _ request => some request.term
  | .sendRequestVoteResponse _ response => some response.term
  | .sendAppendEntries _ request => some request.term
  | .sendAppendEntriesResponse _ response => some response.term
  | .applyEntry _ _ => none

/-- The node comes back at this happening. -/
def Happening.restarts : Happening -> Bool
  | .returns _ _ => false
  | .cuts _ _ => true
  | .crash => true

/-- A vote survives: no two candidates are granted a vote in one term, and after
a restart the node's term is at least every term it has sent. -/
def VoteSurvives (history : List Episode) (life : Lifetime) : Prop :=
  (forall term first second,
    Action.sendRequestVoteResponse first ⟨term, true⟩ ∈ returned history ->
    Action.sendRequestVoteResponse second ⟨term, true⟩ ∈ returned history -> first = second) ∧
  (forall last earlier, history = last :: earlier -> last.event.restarts = true ->
    forall action term, action ∈ returned history -> termOf action = some term ->
      term ≤ life.node.state.currentTerm)

/-- How the saves of a happening ended, the oldest first. -/
def Happening.writes : Happening -> List Write
  | .returns _ writes => writes
  | .cuts _ writes => writes
  | .crash => []

/-- How the last save of a history ended. -/
def lastWrite : List Episode -> Write
  | [] => .complete
  | episode :: earlier => episode.event.writes.getLast?.getD (lastWrite earlier)

/-- Whenever the node comes back, the last save that ran before had been
completed. -/
def ComesBackWhole : List Episode -> Prop
  | [] => True
  | episode :: earlier =>
      ComesBackWhole earlier ∧
        (episode.event.restarts = true -> lastWrite (episode :: earlier) = .complete)

instance : (history : List Episode) -> Decidable (ComesBackWhole history)
  | [] => inferInstanceAs (Decidable True)
  | episode :: earlier =>
      let _ := instDecidableComesBackWhole earlier
      inferInstanceAs (Decidable (ComesBackWhole earlier ∧
        (episode.event.restarts = true -> lastWrite (episode :: earlier) = .complete)))

/-- Live through a list of happenings, without a file at first. -/
def live (id : Nat) (peers : List Nat) (happenings : List Happening) :
    Option (List Episode × Lifetime) :=
  (lifetimes id peers).execute happenings (.begin id peers .absent)

/-- Lives with a property that can be checked. -/
theorem exists_lives {id : Nat} {peers : List Nat} {happenings : List Happening}
    {check : List Episode × Lifetime -> Bool}
    (checked : (live id peers happenings).any check = true) :
    Exists fun history => Exists fun life =>
      Lives id peers history life ∧ check (history, life) = true := by
  have starts : (lifetimes id peers).Starts (.begin id peers .absent) := ⟨.absent, rfl⟩
  exact System.exists_run starts checked

/-! ## What is written, and when -/

/-- The term of a node and its vote in it. -/
def ballotOf (node : RaftNode) : Nat × Option Nat :=
  (node.state.currentTerm, node.state.votedFor)

/-- A ballot of a later term, or of the same term with the same vote if there was
one. -/
def Succeeds (before after : Nat × Option Nat) : Prop :=
  before.1 < after.1 ∨
    before.1 = after.1 ∧ forall candidate, before.2 = some candidate -> after.2 = some candidate

theorem Succeeds.refl (ballot : Nat × Option Nat) : Succeeds ballot ballot :=
  Or.inr ⟨rfl, fun _ same => same⟩

theorem Succeeds.trans {first second third : Nat × Option Nat} (lower : Succeeds first second)
    (upper : Succeeds second third) : Succeeds first third := by
  rcases lower with later | ⟨same, kept⟩
  · rcases upper with again | ⟨equal, _⟩
    · exact Or.inl (Nat.lt_trans later again)
    · exact Or.inl (by rw [← equal]; exact later)
  · rcases upper with later | ⟨equal, keptAgain⟩
    · exact Or.inl (by rw [same]; exact later)
    · exact Or.inr ⟨same.trans equal, fun candidate voted => keptAgain _ (kept _ voted)⟩

theorem Succeeds.term_le {before after : Nat × Option Nat} (follows : Succeeds before after) :
    before.1 ≤ after.1 := by
  rcases follows with later | ⟨same, _⟩
  · exact Nat.le_of_lt later
  · exact Nat.le_of_eq same

/-- The ballot in a saved state. -/
def ballotIn (state : PersistentState) : Nat × Option Nat := (state.currentTerm, state.votedFor)

/-- The saves issued from one node to another: each holds a ballot that follows
the first node's, and the newest one is the second node's, which has not changed
if nothing was saved. -/
structure Saves (node after : RaftNode) : Prop where
  enabled : after.persister.isSome
  states : Exists fun states => savesOf after = states ++ savesOf node ∧
    (forall state, state ∈ states -> Succeeds (ballotOf node) (ballotIn state)) ∧
    (states.head?.map ballotIn).getD (ballotOf node) = ballotOf after

theorem Saves.follows {node after : RaftNode} (saves : Saves node after) :
    Succeeds (ballotOf node) (ballotOf after) := by
  rcases saves.states with ⟨states, _, each, newest⟩
  cases states with
  | nil =>
      have same : ballotOf node = ballotOf after := newest
      rw [← same]
      exact .refl _
  | cons state rest =>
      have same : ballotIn state = ballotOf after := newest
      rw [← same]
      exact each state List.mem_cons_self

/-- A change that saves nothing and leaves the ballot alone. -/
theorem saves_nothing {node after : RaftNode} (enabled : node.persister.isSome)
    (samePersister : after.persister = node.persister) (same : ballotOf after = ballotOf node) :
    Saves node after := by
  refine ⟨by rw [samePersister]; exact enabled, [], ?_,
    fun _ listed => (List.not_mem_nil listed).elim, same.symm⟩
  rw [savesOf, savesOf, samePersister]
  rfl

/-- A change that is saved at once. -/
theorem saves_persist {node after : RaftNode} (enabled : node.persister.isSome)
    (samePersister : after.persister = node.persister)
    (follows : Succeeds (ballotOf node) (ballotOf after)) : Saves node after.persist := by
  cases present : node.persister with
  | none =>
      rw [present] at enabled
      cases enabled
  | some persister =>
      have saved : after.persist.persister = some (persister.save after.persistentState) := by
        rw [RaftNode.persist_persister, samePersister, present]
        rfl
      refine ⟨by rw [saved]; rfl, [after.persistentState], ?_, ?_, rfl⟩
      · rw [savesOf, savesOf, saved, present]
        rfl
      · intro state listed
        rw [List.mem_singleton.mp listed]
        exact follows

theorem Saves.trans {first second third : RaftNode} (lower : Saves first second)
    (upper : Saves second third) : Saves first third := by
  have between := lower.follows
  rcases lower.states with ⟨older, olderSaves, olderEach, olderNewest⟩
  rcases upper.states with ⟨newer, newerSaves, newerEach, newerNewest⟩
  refine ⟨upper.enabled, newer ++ older, ?_, ?_, ?_⟩
  · rw [newerSaves, olderSaves, List.append_assoc]
  · intro state listed
    rcases List.mem_append.mp listed with new | old
    · exact between.trans (newerEach state new)
    · exact olderEach state old
  · cases newer with
    | nil =>
        have same : ballotOf second = ballotOf third := newerNewest
        rw [List.nil_append, olderNewest, same]
    | cons state rest => exact newerNewest

/-- Taking over leadership and moving the commit index do not touch the ballot. -/
theorem Saves.winElection {node winner : RaftNode} (saves : Saves node winner) :
    Saves node winner.winElection.1 := by
  have unchanged : Saves winner winner.winElection.1 := saves_nothing saves.enabled rfl rfl
  exact saves.trans unchanged

theorem Saves.withCommit {node middle : RaftNode} (saves : Saves node middle)
    (lastApplied commitIndex : Nat) : Saves node (middle.withCommit lastApplied commitIndex) := by
  have unchanged : Saves middle (middle.withCommit lastApplied commitIndex) :=
    saves_nothing saves.enabled rfl rfl
  exact saves.trans unchanged

/-! ## Handlers -/

/-- What a handler does to the ballot: it saves every change, its grants are its
saved votes, and no message has a term beyond the saved one. -/
structure Dutiful (node after : RaftNode) (actions : List Action) : Prop where
  saves : Saves node after
  grants : forall candidate term, Action.sendRequestVoteResponse candidate ⟨term, true⟩ ∈ actions ->
    ballotOf after = (term, some candidate)
  terms : forall action term, action ∈ actions -> termOf action = some term ->
    term ≤ after.state.currentTerm

section Handlers

variable {node after : RaftNode} {actions : List Action}

/-- A handler that returns no messages. -/
theorem Saves.dutiful (saves : Saves node after) : Dutiful node after [] :=
  ⟨saves, fun _ _ listed => (List.not_mem_nil listed).elim,
    fun _ _ listed => (List.not_mem_nil listed).elim⟩

theorem Dutiful.append {more : List Action} (first : Dutiful node after actions)
    (second : Dutiful node after more) : Dutiful node after (actions ++ more) where
  saves := first.saves
  grants candidate term listed := by
    rcases List.mem_append.mp listed with left | right
    · exact first.grants candidate term left
    · exact second.grants candidate term right
  terms action term listed sent := by
    rcases List.mem_append.mp listed with left | right
    · exact first.terms action term left sent
    · exact second.terms action term right sent

/-- Requests of the current term. -/
theorem Saves.dutiful_replicate (saves : Saves node after) {sender : RaftNode}
    (sameTerm : sender.state.currentTerm = after.state.currentTerm) :
    Dutiful node after sender.replicateToAllPeers where
  saves := saves
  grants candidate term listed := by
    rcases RaftNode.mem_replicateToAllPeers listed with ⟨_, _, _, _, equal⟩
    cases equal
  terms action term listed sent := by
    rcases RaftNode.mem_replicateToAllPeers listed with ⟨_, _, _, _, rfl⟩
    cases sent
    exact Nat.le_of_eq sameTerm

theorem Saves.dutiful_applications (saves : Saves node after) {applier : RaftNode}
    {low high : Nat} : Dutiful node after (applier.applications low high) where
  saves := saves
  grants candidate term listed := by
    rcases RaftNode.mem_applications.mp listed with ⟨_, _, _, _, _, _, equal⟩
    cases equal
  terms action term listed sent := by
    rcases RaftNode.mem_applications.mp listed with ⟨_, _, _, _, _, _, rfl⟩
    cases sent

/-- A reply to a replication request, in the current term. -/
theorem Saves.dutiful_reply (saves : Saves node after) {recipient : Nat}
    {response : AppendEntriesResponse} (bound : response.term ≤ after.state.currentTerm) :
    Dutiful node after [.sendAppendEntriesResponse recipient response] where
  saves := saves
  grants candidate term listed := by
    cases List.mem_singleton.mp listed
  terms action term listed sent := by
    rw [List.mem_singleton.mp listed] at sent
    cases sent
    exact bound

theorem follows_becomeFollower {term : Nat} (state : RaftState) :
    Succeeds (state.currentTerm, state.votedFor)
      ((state.becomeFollower term).currentTerm, (state.becomeFollower term).votedFor) := by
  rw [RaftState.becomeFollower_currentTerm, RaftState.becomeFollower_votedFor]
  by_cases higher : term > state.currentTerm
  · exact Or.inl (by simpa using higher)
  · right
    rw [if_neg higher]
    exact ⟨by simp only; omega, fun _ same => same⟩

theorem saves_stepDown (enabled : node.persister.isSome) (term : Nat) :
    Saves node (node.stepDown term) :=
  saves_persist enabled rfl (follows_becomeFollower node.state)

theorem saves_acceptLeader (enabled : node.persister.isSome) (request : AppendEntriesRequest) :
    Saves node (node.acceptLeader request) :=
  saves_persist enabled rfl (follows_becomeFollower node.state)

theorem saves_raiseTerm (enabled : node.persister.isSome) (term : Nat) :
    Saves node (node.raiseTerm term) := by
  unfold RaftNode.raiseTerm
  split
  · exact saves_stepDown enabled term
  · exact saves_nothing enabled rfl rfl

theorem dutiful_startElection (enabled : node.persister.isSome)
    (started : node.startElection = .ok (after, actions)) : Dutiful node after actions := by
  rcases RaftNode.startElection_eq_ok.mp started with ⟨_, result⟩
  have standing : Saves node node.candidacy :=
    saves_persist enabled rfl (Or.inl (Nat.lt_succ_self _))
  split at result
  · have first : after = node.candidacy.winElection.1 := congrArg Prod.fst result
    have second : actions = node.candidacy.winElection.2 := congrArg Prod.snd result
    rw [first, second]
    exact standing.winElection.dutiful_replicate rfl
  · cases result
    refine ⟨standing, ?_, ?_⟩
    · intro candidate term listed
      rcases List.mem_map.mp listed with ⟨_, _, equal⟩
      cases equal
    · intro action term listed sent
      rcases List.mem_map.mp listed with ⟨_, _, rfl⟩
      cases sent
      exact Nat.le_refl _

theorem dutiful_tick (enabled : node.persister.isSome) (ticked : node.tick = .ok (after, actions)) :
    Dutiful node after actions := by
  rcases RaftNode.tick_cases ticked with
    ⟨timeout, rfl, rfl⟩ | ⟨_, timeout, rfl, sent⟩ | ⟨_, timeout, started⟩
  · have nothing : Saves node { node with electionTimeout := timeout } :=
      saves_nothing enabled rfl rfl
    exact nothing.dutiful
  · have nothing : Saves node { node with heartbeatTimeout := timeout } :=
      saves_nothing enabled rfl rfl
    rcases sent with none | all
    · rw [none]
      exact nothing.dutiful
    · rw [all]
      exact nothing.dutiful_replicate rfl
  · have later := dutiful_startElection enabled started
    exact ⟨later.saves, later.grants, later.terms⟩

theorem dutiful_handleRequestVote (enabled : node.persister.isSome) (request : RequestVoteRequest) :
    Dutiful node (node.handleRequestVote request).1 (node.handleRequestVote request).2 := by
  rcases node.handleRequestVote_cases request with
    ⟨_, equal⟩ | ⟨current, free, _, equal⟩ | ⟨current, _, equal⟩
  · rw [equal]
    refine ⟨saves_nothing enabled rfl rfl, ?_, ?_⟩
    · intro candidate term listed
      cases List.mem_singleton.mp listed
    · intro action term listed sent
      rw [List.mem_singleton.mp listed] at sent
      cases sent
      exact Nat.le_refl _
  · rw [equal]
    have raised := saves_raiseTerm enabled request.term
    have sameTerm := RaftNode.raiseTerm_currentTerm current
    have follows : Succeeds (ballotOf (node.raiseTerm request.term))
        ((node.raiseTerm request.term).state.currentTerm, some request.candidateId) := by
      refine Or.inr ⟨rfl, ?_⟩
      intro candidate voted
      change (node.raiseTerm request.term).state.votedFor = some candidate at voted
      rw [voted] at free
      simp only [RaftNode.canVote, decide_eq_true_eq] at free
      rw [free]
    refine ⟨raised.trans (saves_persist raised.enabled rfl follows), ?_, ?_⟩
    · intro candidate term listed
      cases List.mem_singleton.mp listed
      exact Prod.ext sameTerm rfl
    · intro action term listed sent
      rw [List.mem_singleton.mp listed] at sent
      cases sent
      exact Nat.le_of_eq sameTerm.symm
  · rw [equal]
    refine ⟨saves_raiseTerm enabled request.term, ?_, ?_⟩
    · intro candidate term listed
      cases List.mem_singleton.mp listed
    · intro action term listed sent
      rw [List.mem_singleton.mp listed] at sent
      cases sent
      exact Nat.le_of_eq (RaftNode.raiseTerm_currentTerm current).symm

theorem dutiful_handleRequestVoteResponse (enabled : node.persister.isSome) (sender : Nat)
    (response : RequestVoteResponse) :
    Dutiful node (node.handleRequestVoteResponse sender response).1
      (node.handleRequestVoteResponse sender response).2 := by
  have counted : Saves node (node.countVote sender response) := by
    unfold RaftNode.countVote
    split <;> exact saves_nothing enabled rfl rfl
  rcases node.handleRequestVoteResponse_cases sender response with
    equal | ⟨_, _, equal⟩ | ⟨_, _, equal⟩
  · rw [equal]
    exact (saves_nothing enabled rfl rfl).dutiful
  · rw [equal]
    exact (saves_stepDown enabled response.term).dutiful
  · rw [equal]
    split
    · exact counted.winElection.dutiful_replicate rfl
    · exact counted.dutiful

theorem saves_insertEntries (enabled : node.persister.isSome) {request : AppendEntriesRequest}
    {inserted : RaftNode} (ok : node.insertEntries request = .ok inserted) :
    Saves node inserted := by
  unfold RaftNode.insertEntries at ok
  split at ok
  · cases ok
    exact saves_nothing enabled rfl rfl
  · rcases Outcome.bind_eq_ok.mp ok with ⟨firstIndex, _, rest⟩
    simp only at rest
    split at rest
    · cases rest
      exact saves_nothing enabled rfl rfl
    · rcases Outcome.bind_eq_ok.mp rest with ⟨log, _, done⟩
      cases done
      exact saves_persist enabled rfl (.refl _)

theorem dutiful_handleAppendEntries (enabled : node.persister.isSome)
    {request : AppendEntriesRequest}
    (handled : node.handleAppendEntries request = .ok (after, actions)) :
    Dutiful node after actions := by
  have accepted := saves_acceptLeader enabled request
  rcases RaftNode.handleAppendEntries_cases handled with
    ⟨_, rfl, rfl⟩ | ⟨current, _, rfl, rfl⟩ | ⟨_, _, inserted, ok, rfl, rfl⟩
  · exact (saves_nothing enabled rfl rfl).dutiful_reply (Nat.le_refl _)
  · apply accepted.dutiful_reply
    simp
  · have inserting := saves_insertEntries accepted.enabled ok
    rcases inserted.followCommit_shape request.leaderCommit with
      ⟨lastApplied, commitIndex, _, _, followed⟩
    rw [followed]
    have committed := (accepted.trans inserting).withCommit lastApplied commitIndex
    exact committed.dutiful_applications.append (committed.dutiful_reply (Nat.le_refl _))

theorem dutiful_handleAppendEntriesResponse (enabled : node.persister.isSome) {sender : Nat}
    {response : AppendEntriesResponse}
    (handled : node.handleAppendEntriesResponse sender response = .ok (after, actions)) :
    Dutiful node after actions := by
  rcases RaftNode.handleAppendEntriesResponse_cases handled with
    ⟨_, rfl, rfl⟩ | ⟨_, _, rfl, rfl⟩ | ⟨_, _, _, recorded, ok, equal⟩ | ⟨_, _, _, ok, rfl⟩
  · exact (saves_nothing enabled rfl rfl).dutiful
  · exact (saves_stepDown enabled response.term).dutiful
  · rcases RaftNode.recordMatch_eq_ok ok with ⟨matchIndex, nextIndex, rfl, _⟩
    have recording : Saves node { node with state := { node.state with
        matchIndex := matchIndex, nextIndex := nextIndex } } := saves_nothing enabled rfl rfl
    rcases RaftNode.maybeAdvanceCommitIndex_shape { node with state := { node.state with
      matchIndex := matchIndex, nextIndex := nextIndex } } with
      ⟨lastApplied, commitIndex, _, _, advanced⟩
    rw [advanced] at equal
    cases equal
    exact (recording.withCommit lastApplied commitIndex).dutiful_applications
  · rcases RaftNode.recordRejection_eq_ok ok with ⟨nextIndex, rfl, _⟩
    have recording : Saves node { node with state := { node.state with nextIndex := nextIndex } } :=
      saves_nothing enabled rfl rfl
    exact recording.dutiful

theorem dutiful_propose (enabled : node.persister.isSome) {command : LogCommand}
    {emitted : Option (List Action)} (proposed : node.propose command = .ok (after, emitted)) :
    Dutiful node after (emitted.getD []) := by
  rcases RaftNode.propose_cases proposed with ⟨_, rfl, rfl⟩ | ⟨_, _, rfl, rfl⟩
  · exact (saves_nothing enabled rfl rfl).dutiful
  · have appended : Saves node (node.withEntry command) := saves_persist enabled rfl (.refl _)
    rcases (node.withEntry command).maybeAdvanceCommitIndex_shape with
      ⟨lastApplied, commitIndex, _, _, advanced⟩
    rw [advanced]
    have committed := appended.withCommit lastApplied commitIndex
    have sent : Dutiful node ((node.withEntry command).withCommit lastApplied commitIndex)
        (node.withEntry command).replicateToAllPeers := committed.dutiful_replicate rfl
    exact sent.append committed.dutiful_applications

/-- Every call is dutiful. -/
theorem dutiful_call (enabled : node.persister.isSome) {call : Call}
    (ran : call.run node = .ok (after, actions)) : Dutiful node after actions := by
  cases call with
  | tick => exact dutiful_tick enabled ran
  | propose command =>
      rcases Outcome.map_eq_ok.mp ran with ⟨⟨proposed, emitted⟩, ok, equal⟩
      cases equal
      exact dutiful_propose enabled ok
  | receive message =>
      cases dispatch_handled ran with
      | requestVote sender request => exact dutiful_handleRequestVote enabled request
      | requestVoteResponse sender vote =>
          exact dutiful_handleRequestVoteResponse enabled sender vote
      | appendEntries sender request returned =>
          exact dutiful_handleAppendEntries enabled returned
      | appendEntriesResponse sender reply returned =>
          exact dutiful_handleAppendEntriesResponse enabled returned

end Handlers

/-! ## Lives -/

/-- The ballot a node starts with from a file. -/
def recovered (file : File) : Nat × Option Nat :=
  match file.load with
  | .ok (some state) => ballotIn state
  | _ => (0, none)

theorem ballotOf_begin (id : Nat) (peers : List Nat) (file : File) :
    ballotOf (Lifetime.begin id peers file).node = recovered file := by
  cases file <;> rfl

theorem enabled_begin (id : Nat) (peers : List Nat) (file : File) :
    (Lifetime.begin id peers file).node.persister.isSome = true := by
  cases file <;> rfl

/-- When the last save that ran was completed, the file holds it. -/
theorem writes_eq_whole (saves : List PersistentState) (writes : List Write) (file : File)
    (fits : writes.length ≤ saves.length) (last : writes.getLast? = some .complete) :
    Exists fun state => (saves.take writes.length).getLast? = some state ∧
      file.writes (saves.zip writes) = .whole state := by
  induction writes generalizing saves file with
  | nil => cases last
  | cons write others inductionHypothesis =>
      cases saves with
      | nil => cases fits
      | cons state rest =>
          cases others with
          | nil =>
              cases last
              exact ⟨state, rfl, by simp [File.writes, File.write]⟩
          | cons next more =>
              rw [List.getLast?_cons_cons] at last
              rcases inductionHypothesis rest (file.write state write) (Nat.le_of_succ_le_succ fits)
                last with ⟨newest, listed, written⟩
              refine ⟨newest, ?_, written⟩
              rw [List.length_cons, List.take_succ_cons, List.getLast?_cons, listed]
              rfl

/-- The saves of a handler, oldest first. -/
theorem issued_eq {node after : RaftNode} {states : List PersistentState}
    (saves : savesOf after = states ++ savesOf node) : issued node after = states.reverse := by
  unfold issued
  rw [saves, List.length_append, Nat.add_sub_cancel, List.take_left]

/-- What a node and its file remember of the history. -/
structure Remembers (history : List Episode) (life : Lifetime) : Prop where
  enabled : life.node.persister.isSome
  saved : lastWrite history = .complete -> recovered life.file = ballotOf life.node
  unique : forall term first second,
    Action.sendRequestVoteResponse first ⟨term, true⟩ ∈ returned history ->
    Action.sendRequestVoteResponse second ⟨term, true⟩ ∈ returned history -> first = second
  grants : forall term candidate,
    Action.sendRequestVoteResponse candidate ⟨term, true⟩ ∈ returned history ->
    Succeeds (term, some candidate) (ballotOf life.node)
  terms : forall action term, action ∈ returned history -> termOf action = some term ->
    term ≤ life.node.state.currentTerm

theorem remembers_begin (id : Nat) (peers : List Nat) (file : File) :
    Remembers [] (.begin id peers file) where
  enabled := enabled_begin id peers file
  saved _ := (ballotOf_begin id peers file).symm
  unique _ _ _ listed := (List.not_mem_nil listed).elim
  grants _ _ listed := (List.not_mem_nil listed).elim
  terms _ _ listed := (List.not_mem_nil listed).elim

section Lives

variable {id : Nat} {peers : List Nat} {history : List Episode} {life after : Lifetime}
  {actions : List Action}

/-- A restart from a file that holds the ballot of the node or a later one. -/
theorem Remembers.restart (remembers : Remembers history life) {file : File}
    (follows : Succeeds (ballotOf life.node) (recovered file)) (happening : Happening) :
    Remembers (⟨life, happening, [], .begin id peers file⟩ :: history)
      (.begin id peers file) where
  enabled := enabled_begin id peers file
  saved _ := (ballotOf_begin id peers file).symm
  unique := remembers.unique
  grants term candidate listed := by
    rw [ballotOf_begin]
    exact (remembers.grants term candidate listed).trans follows
  terms action term listed sent := by
    have before := remembers.terms action term listed sent
    have reached := follows.term_le
    rw [← ballotOf_begin id peers] at reached
    exact Nat.le_trans before reached

/-- A call that returns. -/
theorem Remembers.returns (remembers : Remembers history life) {node : RaftNode} {file : File}
    {happening : Happening} (dutiful : Dutiful life.node node actions)
    (saved : lastWrite (⟨life, happening, actions, ⟨node, file⟩⟩ :: history) = .complete ->
      recovered file = ballotOf node) :
    Remembers (⟨life, happening, actions, ⟨node, file⟩⟩ :: history) ⟨node, file⟩ := by
  have follows := dutiful.saves.follows
  have older : forall term candidate,
      Action.sendRequestVoteResponse candidate ⟨term, true⟩ ∈ returned history ->
      Succeeds (term, some candidate) (ballotOf node) := fun term candidate listed =>
    (remembers.grants term candidate listed).trans follows
  -- an older grant in the term of a new one was the same vote
  have agree : forall term first second,
      Action.sendRequestVoteResponse first ⟨term, true⟩ ∈ returned history ->
      Action.sendRequestVoteResponse second ⟨term, true⟩ ∈ actions -> first = second := by
    intro term first second before now
    have ballot := dutiful.grants second term now
    rcases older term first before with later | ⟨_, kept⟩
    · rw [ballot] at later
      exact absurd later (Nat.lt_irrefl _)
    · have same := kept first rfl
      rw [ballot] at same
      exact (Option.some.inj same).symm
  refine ⟨dutiful.saves.enabled, saved, ?_, ?_, ?_⟩
  · intro term first second left right
    rcases List.mem_append.mp left with leftNow | leftBefore
    · rcases List.mem_append.mp right with rightNow | rightBefore
      · have same := (dutiful.grants first term leftNow).symm.trans
          (dutiful.grants second term rightNow)
        exact Option.some.inj (congrArg Prod.snd same)
      · exact (agree term second first rightBefore leftNow).symm
    · rcases List.mem_append.mp right with rightNow | rightBefore
      · exact agree term first second leftBefore rightNow
      · exact remembers.unique term first second leftBefore rightBefore
  · intro term candidate listed
    rcases List.mem_append.mp listed with now | before
    · change Succeeds (term, some candidate) (ballotOf node)
      rw [dutiful.grants candidate term now]
      exact .refl _
    · exact older term candidate before
  · intro action term listed sent
    rcases List.mem_append.mp listed with now | before
    · exact dutiful.terms action term now sent
    · exact Nat.le_trans (remembers.terms action term before sent) follows.term_le

/-- The file after all saves of a call, the last of which was completed. -/
theorem Remembers.saved_returns (remembers : Remembers history life) {node : RaftNode}
    {writes : List Write} (saves : Saves life.node node)
    (all : writes.length = (issued life.node node).length)
    (whole : writes.getLast?.getD (lastWrite history) = .complete) :
    recovered (life.file.writes ((issued life.node node).zip writes)) = ballotOf node := by
  rcases saves.states with ⟨states, issuedStates, _, newest⟩
  rw [issued_eq issuedStates] at all ⊢
  cases last : writes.getLast? with
  | none =>
      rw [last] at whole
      have none : writes = [] := List.getLast?_eq_none_iff.mp last
      subst none
      have nothing : states = [] := by simpa using all.symm
      subst nothing
      rw [← newest]
      exact remembers.saved whole
  | some write =>
      rw [last] at whole
      cases whole
      rcases writes_eq_whole states.reverse writes life.file (Nat.le_of_eq all) last with
        ⟨state, listed, written⟩
      rw [all, List.take_length, List.getLast?_reverse] at listed
      rw [listed] at newest
      rw [written]
      exact newest

/-- The file after some saves of a call, the last of which was completed. -/
theorem Remembers.follows_cuts (remembers : Remembers history life) {node : RaftNode}
    {writes : List Write} (saves : Saves life.node node)
    (some : writes.length ≤ (issued life.node node).length)
    (whole : writes.getLast?.getD (lastWrite history) = .complete) :
    Succeeds (ballotOf life.node)
      (recovered (life.file.writes ((issued life.node node).zip writes))) := by
  rcases saves.states with ⟨states, issuedStates, each, _⟩
  rw [issued_eq issuedStates] at some ⊢
  cases last : writes.getLast? with
  | none =>
      rw [last] at whole
      have none : writes = [] := List.getLast?_eq_none_iff.mp last
      subst none
      rw [List.zip_nil_right]
      change Succeeds _ (recovered life.file)
      rw [remembers.saved whole]
      exact .refl _
  | some write =>
      rw [last] at whole
      cases whole
      rcases writes_eq_whole states.reverse writes life.file some last with
        ⟨state, listed, written⟩
      rw [written]
      apply each
      exact List.mem_reverse.mp (List.mem_of_mem_take (List.mem_of_getLast? listed))

/-- What a call has saved when it ends or panics. -/
theorem saves_last {node : RaftNode} (enabled : node.persister.isSome) (call : Call) :
    Saves node (call.last node) := by
  unfold Call.last
  cases ran : call.run node with
  | ok result => exact (dutiful_call enabled ran).saves
  | error panic =>
      have nothing : Saves node node := saves_nothing enabled rfl rfl
      cases call with
      | tick => exact nothing
      | propose command => exact nothing
      | receive message =>
          cases message with
          | requestVote sender request => exact nothing
          | requestVoteResponse sender response => exact nothing
          | appendEntries sender request => exact saves_acceptLeader enabled request
          | appendEntriesResponse sender response => exact nothing

/-- Every happening is remembered, a restart if the last save was completed. -/
theorem Remembers.step (remembers : Remembers history life) {happening : Happening}
    (whole : happening.restarts = true ->
      lastWrite (⟨life, happening, actions, after⟩ :: history) = .complete)
    (stepped : life.step id peers happening = some (after, actions)) :
    Remembers (⟨life, happening, actions, after⟩ :: history) after := by
  cases happening with
  | crash =>
      cases stepped
      refine remembers.restart ?_ _
      rw [remembers.saved (whole rfl)]
      exact .refl _
  | returns call writes =>
      simp only [Lifetime.step] at stepped
      cases ran : call.run life.node with
      | error panic =>
          rw [ran] at stepped
          cases stepped
      | ok result =>
          rcases result with ⟨node, emitted⟩
          rw [ran] at stepped
          simp only at stepped
          split at stepped
          · next all =>
              cases stepped
              have dutiful := dutiful_call remembers.enabled ran
              exact remembers.returns dutiful (remembers.saved_returns dutiful.saves all)
          · cases stepped
  | cuts call writes =>
      simp only [Lifetime.step] at stepped
      split at stepped
      · next some =>
          cases stepped
          have saves := saves_last remembers.enabled call
          exact remembers.restart (remembers.follows_cuts saves some (whole rfl)) _
      · cases stepped

/-- In every life in which no restart follows a save that was cut or failed, a
vote survives.  The crashes inside a call are included. -/
theorem vote_survives (lives : Lives id peers history life) (whole : ComesBackWhole history) :
    VoteSurvives history life := by
  have remembers : Remembers history life := by
    induction lives with
    | start begins =>
        rcases begins with ⟨file, rfl⟩
        exact remembers_begin id peers file
    | next lives stepped inductionHypothesis =>
        exact (inductionHypothesis whole.1).step whole.2 stepped
  exact ⟨remembers.unique, fun _ _ _ _ => remembers.terms⟩

end Lives

/-- Node 1 grants its vote of term 1 to node 2, and a crash cuts the vote of
term 2 behind the save of the term. -/
theorem vote_survives_cut :
    Exists fun history => Exists fun life => Lives 1 [1, 2, 3] history life ∧
      ComesBackWhole history ∧
      Action.sendRequestVoteResponse 2 ⟨1, true⟩ ∈ returned history ∧
      (forall candidate, Action.sendRequestVoteResponse candidate ⟨1, true⟩ ∈ returned history ->
        candidate = 2) := by
  have checked : (live 1 [1, 2, 3]
      [.returns (.receive (.requestVote 2 ⟨1, 2, 0, 0⟩)) [.untouched, .complete],
       .cuts (.receive (.requestVote 3 ⟨2, 3, 0, 0⟩)) [.complete],
       .returns (.receive (.requestVote 3 ⟨2, 3, 0, 0⟩)) [.complete]]).any (fun result =>
        decide (ComesBackWhole result.1) &&
        decide (Action.sendRequestVoteResponse 2 ⟨1, true⟩ ∈ returned result.1)) = true := by
    decide +kernel
  rcases exists_lives checked with ⟨history, life, lives, holds⟩
  rcases Bool.and_eq_true_iff.mp holds with ⟨whole, granted⟩
  have survives := vote_survives lives (of_decide_eq_true whole)
  exact ⟨history, life, lives, of_decide_eq_true whole, of_decide_eq_true granted,
    fun candidate other => survives.1 1 candidate 2 other (of_decide_eq_true granted)⟩

/-- Without the condition a vote is given twice, whether the saves before a crash
are cut or fail. -/
theorem vote_repeated :
    (¬ forall history life, Lives 1 [1, 2, 3] history life ->
      (forall episode, episode ∈ history -> Write.untouched ∉ episode.event.writes) ->
      VoteSurvives history life) ∧
    (¬ forall history life, Lives 1 [1, 2, 3] history life ->
      (forall episode, episode ∈ history -> Write.cut ∉ episode.event.writes) ->
      VoteSurvives history life) := by
  constructor
  · intro survives
    have checked : (live 1 [1, 2, 3]
        [.returns (.receive (.requestVote 2 ⟨1, 2, 0, 0⟩)) [.complete, .complete],
         .cuts (.receive (.requestVote 3 ⟨2, 3, 0, 0⟩)) [.cut],
         .returns (.receive (.requestVote 3 ⟨1, 3, 0, 0⟩)) [.complete, .complete]]).any
        (fun result => decide (
          (forall episode, episode ∈ result.1 -> Write.untouched ∉ episode.event.writes) ∧
          Action.sendRequestVoteResponse 2 ⟨1, true⟩ ∈ returned result.1 ∧
          Action.sendRequestVoteResponse 3 ⟨1, true⟩ ∈ returned result.1)) = true := by
      decide +kernel
    rcases exists_lives checked with ⟨history, life, lives, holds⟩
    rcases of_decide_eq_true holds with ⟨never, first, second⟩
    have same := (survives history life lives never).1 1 2 3 first second
    cases same
  · intro survives
    have checked : (live 1 [1, 2, 3]
        [.returns (.receive (.requestVote 2 ⟨1, 2, 0, 0⟩)) [.untouched, .untouched],
         .crash,
         .returns (.receive (.requestVote 3 ⟨1, 3, 0, 0⟩)) [.complete, .complete]]).any
        (fun result => decide (
          (forall episode, episode ∈ result.1 -> Write.cut ∉ episode.event.writes) ∧
          Action.sendRequestVoteResponse 2 ⟨1, true⟩ ∈ returned result.1 ∧
          Action.sendRequestVoteResponse 3 ⟨1, true⟩ ∈ returned result.1)) = true := by
      decide +kernel
    rcases exists_lives checked with ⟨history, life, lives, holds⟩
    rcases of_decide_eq_true holds with ⟨never, first, second⟩
    have same := (survives history life lives never).1 1 2 3 first second
    cases same

end Cluster
end RaftStore
