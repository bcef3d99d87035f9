import RaftStore.Raft.State
import Mathlib.Data.Finset.Card

namespace RaftStore
namespace Raft

/-!
# The consensus state machine

This file embeds `raft/node.rs`.  Every handler takes a node and its input and
returns the updated node with the actions the outside world should perform, in
the order in which the source pushes them.  A handler that can panic returns an
`Outcome`.

Loops of the source are recursive functions over the data they traverse: the
conflict scan of `handle_append_entries` over the request's entries, the apply
loop over the number of entries still to apply, the commit scan over the range
of indices.  Log output is not modelled.
-/

/-- An action the Raft node wants the outside world to perform. -/
inductive Action where
  | sendRequestVote (recipient : Nat) (request : RequestVoteRequest)
  | sendRequestVoteResponse (recipient : Nat) (response : RequestVoteResponse)
  | sendAppendEntries (recipient : Nat) (request : AppendEntriesRequest)
  | sendAppendEntriesResponse (recipient : Nat) (response : AppendEntriesResponse)
  | applyEntry (index : Nat) (command : LogCommand)
  deriving DecidableEq, Repr

def electionTimeoutMin : Nat := 30
def electionTimeoutMax : Nat := 60
def heartbeatInterval : Nat := 3

/-- The core Raft node. -/
structure RaftNode where
  state : RaftState
  persister : Option StatePersister
  electionTimeout : Nat
  electionTimeoutDuration : Nat
  heartbeatTimeout : Nat
  votesReceived : Finset Nat
  randomSeed : Nat

/-- Replace the value of the first pair with the given key.  The new value is
computed only when the key is found. -/
def updateFirst (key : Nat) (update : Nat -> Outcome Nat) :
    List (Nat × Nat) -> Outcome (List (Nat × Nat))
  | [] => .ok []
  | (id, value) :: rest =>
      if id = key then (update value).map (fun value => (id, value) :: rest)
      else (updateFirst key update rest).map (fun rest => (id, value) :: rest)

/-- The conflict scan of `handle_append_entries`.  It returns the log, cut at
the first conflicting entry if there is one, and the index at which the scan
stopped. -/
def scanConflicts (log : RaftLog) (insertIndex : Nat) : List LogEntry -> RaftLog × Nat
  | [] => (log, insertIndex)
  | entry :: rest =>
      let existingTerm := log.termAt insertIndex
      if existingTerm = 0 ∧ insertIndex > log.lastIndex then (log, insertIndex)
      else if existingTerm ≠ entry.term then (log.truncateFrom insertIndex, insertIndex)
      else scanConflicts log (insertIndex + 1) rest

namespace RaftNode

/-- Advance the generator and restart the election countdown. -/
def resetElectionTimeout (node : RaftNode) : RaftNode :=
  let seed := wrappingAdd (wrappingMul node.randomSeed 6364136223846793005) 1442695040888963407
  let range := electionTimeoutMax - electionTimeoutMin
  let randomOffset := seed % range + electionTimeoutMin
  { node with
    randomSeed := seed
    electionTimeoutDuration := randomOffset
    electionTimeout := randomOffset }

/-- The node both constructors start from, before its first countdown. -/
def fresh (id : Nat) (peers : List Nat) (persister : Option StatePersister) : RaftNode where
  state := RaftState.new id peers
  persister := persister
  electionTimeout := 0
  electionTimeoutDuration := 0
  heartbeatTimeout := heartbeatInterval
  votesReceived := ∅
  randomSeed := id

/-- A node without persistence. -/
def new (id : Nat) (peers : List Nat) : RaftNode :=
  (fresh id peers none).resetElectionTimeout

/-- A node with persistence.  `loaded` is the result of `StatePersister::load`;
an error is treated like an absent file, as in the source. -/
def withPersistence {ε : Type} (id : Nat) (peers : List Nat) (persister : StatePersister)
    (loaded : Except ε (Option PersistentState)) : RaftNode :=
  let node := fresh id peers (some persister)
  let node :=
    match loaded with
    | .ok (some saved) =>
        { node with state := { node.state with
            currentTerm := saved.currentTerm
            votedFor := saved.votedFor
            log := RaftLog.fromEntries saved.log } }
    | _ => node
  node.resetElectionTimeout

/-- The three fields a save writes. -/
def persistentState (node : RaftNode) : PersistentState where
  currentTerm := node.state.currentTerm
  votedFor := node.state.votedFor
  log := node.state.log.toEntries

/-- Save the persistent state if persistence is enabled. -/
def persist (node : RaftNode) : RaftNode :=
  { node with persister := node.persister.map (fun p => p.save node.persistentState) }

/-! ## Replication -/

/-- Send pending log entries to a specific follower. -/
def replicateToPeer (node : RaftNode) (peerId : Nat) : Option Action :=
  (node.state.nextIndex.find? (fun pair => pair.1 = peerId)).map fun pair =>
    let nextIdx := pair.2
    let prevLogIndex := if nextIdx > 0 then nextIdx - 1 else 0
    .sendAppendEntries peerId {
      term := node.state.currentTerm
      leaderId := node.state.id
      prevLogIndex := prevLogIndex
      prevLogTerm := node.state.log.termAt prevLogIndex
      entries := node.state.log.entriesFrom nextIdx
      leaderCommit := node.state.commitIndex }

/-- Send pending log entries to all followers. -/
def replicateToAllPeers (node : RaftNode) : List Action :=
  node.state.otherPeers.filterMap node.replicateToPeer

/-- Heartbeats carry whatever entries each follower needs. -/
def sendHeartbeats (node : RaftNode) : List Action :=
  node.replicateToAllPeers

/-! ## Commit and application -/

/-- The action that applies the entry at `index`, if it is a real command. -/
def applyAction (node : RaftNode) (index : Nat) : List Action :=
  match node.state.log.get index with
  | none => []
  | some ⟨_, .noop⟩ => []
  | some ⟨_, command⟩ => [.applyEntry index command]

/-- Apply the next `count` entries, one by one and in order. -/
def applyLoop (node : RaftNode) : Nat -> RaftNode × List Action
  | 0 => (node, [])
  | count + 1 =>
      let index := node.state.lastApplied + 1
      let node := { node with state := { node.state with lastApplied := index } }
      let (last, rest) := node.applyLoop count
      (last, node.applyAction index ++ rest)

/-- Apply committed but not yet applied entries, then record the commit index. -/
def applyCommittedEntries (node : RaftNode) (newCommitIndex : Nat) : RaftNode × List Action :=
  let (node, actions) := node.applyLoop (newCommitIndex - node.state.lastApplied)
  ({ node with state := { node.state with commitIndex := newCommitIndex } }, actions)

/-- How many nodes are known to have the entry at `index`, the leader included. -/
def replicationCount (node : RaftNode) (index : Nat) : Nat :=
  1 + node.state.matchIndex.countP (fun pair => pair.2 >= index)

/-- One round of the commit scan. -/
def commitScan (node : RaftNode) (commitIndex index : Nat) : Nat :=
  if node.state.log.termAt index ≠ node.state.currentTerm then commitIndex
  else if node.replicationCount index >= node.state.majorityCount then index
  else commitIndex

/-- Check if any new entries can be committed, and apply them. -/
def maybeAdvanceCommitIndex (node : RaftNode) : RaftNode × List Action :=
  let oldCommit := node.state.commitIndex
  let indices := List.range' (oldCommit + 1) (node.state.log.lastIndex - oldCommit)
  let newCommit := indices.foldl node.commitScan oldCommit
  let node := { node with state := { node.state with commitIndex := newCommit } }
  if newCommit > oldCommit then node.applyCommittedEntries newCommit else (node, [])

/-! ## Ticks and elections -/

/-- The vote requests a candidate sends. -/
def requestVotes (node : RaftNode) : List Action :=
  node.state.otherPeers.map fun peerId => .sendRequestVote peerId {
    term := node.state.currentTerm
    candidateId := node.state.id
    lastLogIndex := node.state.log.lastIndex
    lastLogTerm := node.state.log.lastTerm }

/-- Take over leadership and assert it at once. -/
def winElection (node : RaftNode) : RaftNode × List Action :=
  let node := { node with state := node.state.becomeLeader, heartbeatTimeout := 0 }
  (node, node.sendHeartbeats)

/-- Start a new election. -/
def startElection (node : RaftNode) : Outcome (RaftNode × List Action) := do
  let state <- node.state.becomeCandidate
  let node := { node with state := state, votesReceived := {state.id} }
  let node := node.resetElectionTimeout.persist
  if node.votesReceived.card >= node.state.majorityCount then
    return node.winElection
  else
    return (node, node.requestVotes)

/-- Count down to an election. -/
def tickElection (node : RaftNode) : Outcome (RaftNode × List Action) :=
  let node := { node with electionTimeout := node.electionTimeout - 1 }
  if node.electionTimeout > 0 then .ok (node, []) else node.startElection

/-- Count down to the next heartbeat. -/
def tickHeartbeat (node : RaftNode) : RaftNode × List Action :=
  let node := { node with heartbeatTimeout := node.heartbeatTimeout - 1 }
  if node.heartbeatTimeout > 0 then (node, [])
  else
    let node := { node with heartbeatTimeout := heartbeatInterval }
    (node, node.sendHeartbeats)

/-- Process one unit of time passing. -/
def tick (node : RaftNode) : Outcome (RaftNode × List Action) :=
  match node.state.role with
  | .follower => node.tickElection
  | .candidate => node.tickElection
  | .leader => .ok node.tickHeartbeat

/-! ## Vote handlers -/

/-- The election restriction: the candidate's last entry is not older than ours. -/
def candidateUpToDate (log : RaftLog) (request : RequestVoteRequest) : Bool :=
  request.lastLogTerm > log.lastTerm ||
    (request.lastLogTerm = log.lastTerm && request.lastLogIndex >= log.lastIndex)

/-- The node may vote for this candidate in its current term. -/
def canVote (votedFor : Option Nat) (candidateId : Nat) : Bool :=
  match votedFor with
  | none => true
  | some id => id = candidateId

/-- Step down and save when a message carries a higher term. -/
def stepDown (node : RaftNode) (term : Nat) : RaftNode :=
  { node with state := node.state.becomeFollower term }.persist

/-- Handle an incoming `RequestVote` request. -/
def handleRequestVote (node : RaftNode) (request : RequestVoteRequest) :
    RaftNode × List Action :=
  if request.term < node.state.currentTerm then
    (node, [.sendRequestVoteResponse request.candidateId ⟨node.state.currentTerm, false⟩])
  else
    let node := if request.term > node.state.currentTerm then node.stepDown request.term else node
    let voteGranted :=
      canVote node.state.votedFor request.candidateId &&
        candidateUpToDate node.state.log request
    let node :=
      if voteGranted then
        ({ node with state := { node.state with
            votedFor := some request.candidateId } }).resetElectionTimeout.persist
      else node
    (node, [.sendRequestVoteResponse request.candidateId
      ⟨node.state.currentTerm, voteGranted⟩])

/-- Handle an incoming `RequestVote` response. -/
def handleRequestVoteResponse (node : RaftNode) (sender : Nat) (response : RequestVoteResponse) :
    RaftNode × List Action :=
  if node.state.role ≠ .candidate then (node, [])
  else if response.term > node.state.currentTerm then (node.stepDown response.term, [])
  else if response.term ≠ node.state.currentTerm then (node, [])
  else
    let node :=
      if response.voteGranted then { node with votesReceived := insert sender node.votesReceived }
      else node
    if node.votesReceived.card >= node.state.majorityCount then node.winElection else (node, [])

/-! ## Replication handlers -/

/-- Accept the sender as leader of its term and save. -/
def acceptLeader (node : RaftNode) (request : AppendEntriesRequest) : RaftNode :=
  let state := { node.state.becomeFollower request.term with leaderId := some request.leaderId }
  ({ node with state := state }).resetElectionTimeout.persist

/-- Insert the entries of a request that passed the consistency check: skip
those already there, cut the log at a conflict, append the others and save. -/
def insertEntries (node : RaftNode) (request : AppendEntriesRequest) : Outcome RaftNode :=
  if request.entries.isEmpty then .ok node
  else do
    let firstIndex <- checkedAdd request.prevLogIndex 1
    let (log, insertIndex) := scanConflicts node.state.log firstIndex request.entries
    let newEntries := request.entries.drop (insertIndex - firstIndex)
    if newEntries.isEmpty then return { node with state := { node.state with log := log } }
    else
      let log <- log.appendEntries newEntries
      return ({ node with state := { node.state with log := log } }).persist

/-- Take over the leader's commit index as far as the log reaches. -/
def followCommit (node : RaftNode) (leaderCommit : Nat) : RaftNode × List Action :=
  if leaderCommit > node.state.commitIndex then
    node.applyCommittedEntries (min leaderCommit node.state.log.lastIndex)
  else (node, [])

/-- Handle an incoming `AppendEntries` request. -/
def handleAppendEntries (node : RaftNode) (request : AppendEntriesRequest) :
    Outcome (RaftNode × List Action) :=
  if request.term < node.state.currentTerm then
    .ok (node, [.sendAppendEntriesResponse request.leaderId ⟨node.state.currentTerm, false, none⟩])
  else
    let node := node.acceptLeader request
    if node.state.log.termAt request.prevLogIndex ≠ request.prevLogTerm then
      .ok (node, [.sendAppendEntriesResponse request.leaderId
        ⟨node.state.currentTerm, false, some node.state.log.lastIndex⟩])
    else do
      let node <- node.insertEntries request
      let (node, applied) := node.followCommit request.leaderCommit
      return (node, applied ++ [.sendAppendEntriesResponse request.leaderId
        ⟨node.state.currentTerm, true, some node.state.log.lastIndex⟩])

/-- Record the index a follower reports after accepting entries. -/
def recordMatch (node : RaftNode) (sender : Nat) (matchIdx : Option Nat) : Outcome RaftNode :=
  match matchIdx with
  | none => .ok node
  | some matchIdx => do
      let matchIndex <- updateFirst sender (fun _ => .ok matchIdx) node.state.matchIndex
      let nextIndex <- updateFirst sender (fun _ => checkedAdd matchIdx 1) node.state.nextIndex
      return { node with state := { node.state with
        matchIndex := matchIndex
        nextIndex := nextIndex } }

/-- The next probe for a follower that rejected: right behind the hint if it
gave one, else one index back. -/
def backUp (hint : Option Nat) (next : Nat) : Outcome Nat :=
  match hint with
  | some matchIdx => checkedAdd matchIdx 1
  | none => .ok (if next > 1 then next - 1 else next)

/-- Move the probe for a follower that rejected. -/
def recordRejection (node : RaftNode) (sender : Nat) (hint : Option Nat) : Outcome RaftNode := do
  let nextIndex <- updateFirst sender (backUp hint) node.state.nextIndex
  return { node with state := { node.state with nextIndex := nextIndex } }

/-- Handle an incoming `AppendEntries` response. -/
def handleAppendEntriesResponse (node : RaftNode) (sender : Nat)
    (response : AppendEntriesResponse) : Outcome (RaftNode × List Action) :=
  if node.state.role ≠ .leader then .ok (node, [])
  else if response.term > node.state.currentTerm then .ok (node.stepDown response.term, [])
  else if response.success then do
    let node <- node.recordMatch sender response.matchIndex
    return node.maybeAdvanceCommitIndex
  else do
    let node <- node.recordRejection sender response.matchIndex
    return (node, [])

/-! ## Proposals -/

/-- Propose a new command to the cluster; only a leader accepts it. -/
def propose (node : RaftNode) (command : LogCommand) :
    Outcome (RaftNode × Option (List Action)) :=
  if node.state.role ≠ .leader then .ok (node, none)
  else do
    let log <- node.state.log.append ⟨node.state.currentTerm, command⟩
    let node := ({ node with state := { node.state with log := log } }).persist
    let actions := node.replicateToAllPeers
    let (node, commitActions) := node.maybeAdvanceCommitIndex
    return (node, some (actions ++ commitActions))

end RaftNode
end Raft
end RaftStore
