import RaftStore.Raft.Log

namespace RaftStore
namespace Raft

/-!
# Messages, node state and persisted state

This file embeds `raft/message.rs`, `raft/state.rs` and `raft/persist.rs`.

A `StatePersister` is modelled by the saves issued on its file, the newest
first.  No handler of the node looks at the result of a save, so this list
determines everything a handler does to the disk.  What a save that fails, or
that is cut by a crash, leaves in the file is a matter of the file's contents
and is treated where such saves are considered.
-/

/-! ## Messages -/

/-- The request a candidate sends to ask for votes. -/
structure RequestVoteRequest where
  term : Nat
  candidateId : Nat
  lastLogIndex : Nat
  lastLogTerm : Nat
  deriving DecidableEq, Repr

/-- The response to a vote request. -/
structure RequestVoteResponse where
  term : Nat
  voteGranted : Bool
  deriving DecidableEq, Repr

/-- The request a leader sends to replicate log entries. -/
structure AppendEntriesRequest where
  term : Nat
  leaderId : Nat
  prevLogIndex : Nat
  prevLogTerm : Nat
  entries : List LogEntry
  leaderCommit : Nat
  deriving DecidableEq, Repr

/-- The response to an `AppendEntriesRequest`. -/
structure AppendEntriesResponse where
  term : Nat
  success : Bool
  matchIndex : Option Nat
  deriving DecidableEq, Repr

/-! ## Persisted state -/

/-- The fields of a node that must survive a restart. -/
structure PersistentState where
  currentTerm : Nat
  votedFor : Option Nat
  log : List LogEntry
  deriving DecidableEq, Repr

/-- The file of one node, as the saves issued on it, newest first. -/
structure StatePersister where
  saves : List PersistentState

namespace StatePersister

/-- A persister whose file does not exist yet. -/
def new : StatePersister := ⟨[]⟩

/-- Issue one more save. -/
def save (persister : StatePersister) (state : PersistentState) : StatePersister :=
  ⟨state :: persister.saves⟩

/-- What the file holds when every save was atomic and successful: the newest
saved state, or nothing before the first save. -/
def load (persister : StatePersister) : Option PersistentState :=
  persister.saves.head?

end StatePersister

/-! ## Node state -/

/-- The three possible roles a Raft node can be in. -/
inductive NodeRole where
  | follower
  | candidate
  | leader
  deriving DecidableEq, Repr

/-- The complete state of a Raft node. -/
structure RaftState where
  id : Nat
  peers : List Nat
  currentTerm : Nat
  votedFor : Option Nat
  log : RaftLog
  commitIndex : Nat
  lastApplied : Nat
  nextIndex : List (Nat × Nat)
  matchIndex : List (Nat × Nat)
  role : NodeRole
  leaderId : Option Nat
  deriving DecidableEq, Repr

namespace RaftState

/-- A follower of term 0 with an empty log. -/
def new (id : Nat) (peers : List Nat) : RaftState where
  id := id
  peers := peers
  currentTerm := 0
  votedFor := none
  log := RaftLog.new
  commitIndex := 0
  lastApplied := 0
  nextIndex := []
  matchIndex := []
  role := .follower
  leaderId := none

/-- Transition to the follower role.  The vote is cleared only when the term
grows; the leader-only tables are always cleared. -/
def becomeFollower (state : RaftState) (term : Nat) : RaftState :=
  let state :=
    if term > state.currentTerm then { state with currentTerm := term, votedFor := none }
    else state
  { state with role := .follower, nextIndex := [], matchIndex := [] }

/-- Transition to the candidate role: next term, own vote, no known leader. -/
def becomeCandidate (state : RaftState) : Outcome RaftState := do
  let term <- checkedAdd state.currentTerm 1
  return { state with
    currentTerm := term
    role := .candidate
    votedFor := some state.id
    leaderId := none }

/-- The ids of all nodes of the cluster but this one. -/
def otherPeers (state : RaftState) : List Nat :=
  state.peers.filter (fun peerId => peerId ≠ state.id)

/-- Transition to the leader role after winning an election. -/
def becomeLeader (state : RaftState) : RaftState :=
  { state with
    role := .leader
    leaderId := some state.id
    nextIndex := state.otherPeers.map (fun peerId => (peerId, state.log.lastIndex + 1))
    matchIndex := state.otherPeers.map (fun peerId => (peerId, 0)) }

/-- How many nodes are needed for a majority. -/
def majorityCount (state : RaftState) : Nat :=
  state.peers.length / 2 + 1

/-! ## What the transitions leave in each field -/

section BecomeFollower

variable (state : RaftState) (term : Nat)

@[simp] theorem becomeFollower_id : (state.becomeFollower term).id = state.id := by
  unfold becomeFollower; split <;> rfl

@[simp] theorem becomeFollower_peers : (state.becomeFollower term).peers = state.peers := by
  unfold becomeFollower; split <;> rfl

@[simp] theorem becomeFollower_log : (state.becomeFollower term).log = state.log := by
  unfold becomeFollower; split <;> rfl

@[simp] theorem becomeFollower_commitIndex :
    (state.becomeFollower term).commitIndex = state.commitIndex := by
  unfold becomeFollower; split <;> rfl

@[simp] theorem becomeFollower_lastApplied :
    (state.becomeFollower term).lastApplied = state.lastApplied := by
  unfold becomeFollower; split <;> rfl

@[simp] theorem becomeFollower_role : (state.becomeFollower term).role = .follower := by
  unfold becomeFollower; split <;> rfl

@[simp] theorem becomeFollower_leaderId : (state.becomeFollower term).leaderId = state.leaderId := by
  unfold becomeFollower; split <;> rfl

@[simp] theorem becomeFollower_currentTerm :
    (state.becomeFollower term).currentTerm = max state.currentTerm term := by
  unfold becomeFollower
  split
  · next higher => exact (Nat.max_eq_right (Nat.le_of_lt higher)).symm
  · next higher => exact (Nat.max_eq_left (Nat.le_of_not_lt higher)).symm

theorem becomeFollower_votedFor :
    (state.becomeFollower term).votedFor =
      if term > state.currentTerm then none else state.votedFor := by
  unfold becomeFollower; split <;> rfl

end BecomeFollower

/-- A candidacy that does not panic is for the successor of the old term. -/
theorem becomeCandidate_eq_ok {state result : RaftState} :
    state.becomeCandidate = .ok result <->
      state.currentTerm + 1 < wordSize ∧
      result = { state with
        currentTerm := state.currentTerm + 1
        role := .candidate
        votedFor := some state.id
        leaderId := none } := by
  unfold becomeCandidate
  rw [Outcome.bind_eq_ok]
  constructor
  · rintro ⟨term, added, equal⟩
    rcases checkedAdd_eq_ok.mp added with ⟨fits, same⟩
    subst same
    cases equal
    exact ⟨fits, rfl⟩
  · rintro ⟨fits, same⟩
    exact ⟨state.currentTerm + 1, checkedAdd_eq_ok.mpr ⟨fits, rfl⟩, by rw [same]; rfl⟩

end RaftState
end Raft
end RaftStore
