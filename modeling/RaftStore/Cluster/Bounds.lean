import RaftStore.Cluster.Terms

namespace RaftStore
namespace Cluster

open Raft Systems RaftNode

/-!
# What nodes can take in from each other

Messages with arbitrary contents can stop a node: an index has no successor, or the
entries have no room.  Those that nodes send to each other cannot.  What a request
carries lies within the log it was cut from, and a reply names the end of a log.
-/

/-- The indices a message names are those of logs that fit. -/
def NetworkMessage.Bounded : NetworkMessage -> Prop
  | .appendEntries _ request => request.entries ≠ [] ->
      request.prevLogIndex + 1 + request.entries.length ≤ vecCapacity
  | .appendEntriesResponse _ response => forall reported, response.matchIndex = some reported ->
      reported < vecCapacity
  | _ => True

/-- What the actions send is bounded. -/
def SendsBounded (id : Nat) (actions : List Action) : Prop :=
  forall action packet, action ∈ actions -> packetOf id action = some packet ->
    packet.message.Bounded

section Calls

variable {id : Nat} {node after : RaftNode} {actions : List Action}

theorem SendsBounded.append {more : List Action} (first : SendsBounded id actions)
    (second : SendsBounded id more) : SendsBounded id (actions ++ more) := by
  intro action packet listed packed
  rcases List.mem_append.mp listed with before | behind
  · exact first action packet before packed
  · exact second action packet behind packed

theorem sendsBounded_nil : SendsBounded id [] :=
  fun _ _ listed => (List.not_mem_nil listed).elim

/-- Votes are asked for and given without an index. -/
theorem sendsBounded_requestVotes (node : RaftNode) : SendsBounded id node.requestVotes := by
  intro action packet listed packed
  rcases List.mem_map.mp listed with ⟨_, _, rfl⟩
  cases packed
  exact True.intro

theorem sendsBounded_vote (recipient : Nat) (response : RequestVoteResponse) :
    SendsBounded id [.sendRequestVoteResponse recipient response] := by
  intro action packet listed packed
  cases List.mem_singleton.mp listed
  cases packed
  exact True.intro

theorem sendsBounded_applications (node : RaftNode) (low high : Nat) :
    SendsBounded id (node.applications low high) := by
  intro action packet listed packed
  rcases mem_applications.mp listed with ⟨_, _, _, _, _, _, rfl⟩
  cases packed

/-- A reply names the last index of a log, or none. -/
theorem sendsBounded_reply {recipient : Nat} {response : AppendEntriesResponse}
    (bound : forall reported, response.matchIndex = some reported -> reported < vecCapacity) :
    SendsBounded id [.sendAppendEntriesResponse recipient response] := by
  intro action packet listed packed
  cases List.mem_singleton.mp listed
  cases packed
  exact bound

theorem Steady.lastIndex_lt (steady : Steady node) : node.state.log.lastIndex < vecCapacity := by
  have length := steady.fits
  have nonempty := List.length_pos_iff.mpr steady.kept
  unfold RaftLog.lastIndex
  omega

/-- The entries of a request end where the log of the leader does. -/
theorem sendsBounded_replicateToAllPeers (fits : node.state.log.entries.length ≤ vecCapacity)
    (probes : forall pair, pair ∈ node.state.nextIndex -> 0 < pair.2) :
    SendsBounded id node.replicateToAllPeers := by
  intro action packet listed packed
  rcases mem_replicateToAllPeers listed with ⟨peerId, next, _, probed, rfl⟩
  cases packed
  rcases Nat.exists_eq_succ_of_ne_zero (Nat.ne_of_gt (probes _ probed)) with ⟨index, rfl⟩
  simp only [NetworkMessage.Bounded, Nat.succ_eq_add_one, Nat.add_sub_cancel,
    node.state.log.entriesFrom_succ]
  intro nonempty
  have inside : index < node.state.log.body.length := by
    by_contra beyond
    exact nonempty (List.drop_eq_nil_of_le (Nat.le_of_not_lt beyond))
  rw [List.length_drop]
  rw [RaftLog.body, List.length_tail] at inside ⊢
  omega

theorem Tidy.sendsBounded (tidy : Tidy node) : SendsBounded id node.replicateToAllPeers :=
  sendsBounded_replicateToAllPeers tidy.steady.fits tidy.poised.probes

/-- What a handler sends is bounded, where the node is tidy before and after it. -/
theorem Tidy.handled_sendsBounded (tidy : Tidy node) (left : Tidy after)
    {message : NetworkMessage} (handled : Handled node message after actions) :
    SendsBounded id actions := by
  cases handled with
  | requestVote sender request =>
      rcases RaftNode.handleRequestVote_cases node request with
        ⟨_, equal⟩ | ⟨_, _, _, equal⟩ | ⟨_, _, equal⟩ <;>
        · rw [equal]
          exact sendsBounded_vote _ _
  | requestVoteResponse sender vote =>
      rcases RaftNode.handleRequestVoteResponse_cases node sender vote with
        equal | ⟨_, _, equal⟩ | ⟨_, _, equal⟩
      · rw [equal]
        exact sendsBounded_nil
      · rw [equal]
        exact sendsBounded_nil
      · rw [equal] at left ⊢
        split
        · next won =>
            rw [if_pos won] at left
            exact left.sendsBounded
        · exact sendsBounded_nil
  | appendEntries sender request returned =>
      rcases handleAppendEntries_cases returned with
        ⟨_, _, rfl⟩ | ⟨_, _, rfl, rfl⟩ | ⟨_, _, inserted, _, rfl, rfl⟩
      · exact sendsBounded_reply (fun _ impossible => by cases impossible)
      · refine sendsBounded_reply (fun reported named => ?_)
        cases named
        exact tidy.steady.lastIndex_lt
      · have named : SendsBounded id [.sendAppendEntriesResponse request.leaderId
            ⟨(inserted.followCommit request.leaderCommit).1.state.currentTerm, true,
              some (inserted.followCommit request.leaderCommit).1.state.log.lastIndex⟩] := by
          refine sendsBounded_reply (fun reported named => ?_)
          cases named
          exact left.steady.lastIndex_lt
        rcases inserted.followCommit_shape request.leaderCommit with ⟨_, _, low, high, shape⟩
        rw [shape] at named ⊢
        exact (sendsBounded_applications _ low high).append named
  | appendEntriesResponse sender reply returned =>
      rcases handleAppendEntriesResponse_cases returned with
        ⟨_, _, rfl⟩ | ⟨_, _, _, rfl⟩ | ⟨_, _, _, recorded, _, equal⟩ | ⟨_, _, _, _, rfl⟩
      · exact sendsBounded_nil
      · exact sendsBounded_nil
      · rcases recorded.maybeAdvanceCommitIndex_shape with ⟨_, _, low, high, shape⟩
        rw [shape] at equal
        cases equal
        exact sendsBounded_applications _ low high
      · exact sendsBounded_nil

end Calls

section Runs

variable {peers : List Nat} {history : List Transition} {config : Configuration}

/-- What a step sends is bounded. -/
theorem Ranked.respond_sendsBounded (ranked : Ranked config) {event : Event}
    (enabled : config.Enabled event) {after : RaftNode} {actions : List Action}
    (response : config.respond peers event = .ok (after, actions)) :
    SendsBounded event.actor actions := by
  have tidy := ranked.nodes event.actor
  have left := (ranked.respond_arranges enabled response).tidy
  cases event with
  | tick id =>
      rcases tick_cases response with ⟨_, _, rfl⟩ | ⟨_, _, _, rfl | rfl⟩ | ⟨_, _, started⟩
      · exact sendsBounded_nil
      · exact sendsBounded_nil
      · exact tidy.sendsBounded
      · rcases startElection_eq_ok.mp started with ⟨_, result⟩
        split at result
        · cases result
          exact left.sendsBounded
        · cases result
          exact sendsBounded_requestVotes _
  | propose id command =>
      rcases Outcome.map_eq_ok.mp response with ⟨⟨proposed, emitted⟩, ok, equal⟩
      cases equal
      rcases propose_cases ok with ⟨_, _, rfl⟩ | ⟨_, room, _, rfl⟩
      · exact sendsBounded_nil
      · let extended := (config.nodes id).withEntry command
        have length : extended.state.log.entries.length ≤ vecCapacity := by
          change ((config.nodes id).state.log.entries ++ [_]).length ≤ vecCapacity
          rw [List.length_append]
          exact room
        have sent : SendsBounded id extended.replicateToAllPeers :=
          sendsBounded_replicateToAllPeers length tidy.poised.probes
        rcases extended.maybeAdvanceCommitIndex_shape with ⟨_, _, low, high, shape⟩
        change SendsBounded id
          (extended.replicateToAllPeers ++ extended.maybeAdvanceCommitIndex.2)
        rw [shape]
        exact sent.append (sendsBounded_applications _ low high)
  | restart id =>
      cases response
      exact sendsBounded_nil
  | deliver packet =>
      exact tidy.handled_sendsBounded left (dispatch_handled response)

/-- Every packet on the network is bounded. -/
theorem Run.bounded (run : Run peers history config) {packet : Packet}
    (listed : packet ∈ config.network) : packet.message.Bounded := by
  induction run generalizing packet with
  | start begins =>
      cases begins
      cases listed
  | next run stepped inductionHypothesis =>
      rcases Configuration.step_eq_some.mp stepped with ⟨_, enabled, after, response, rfl⟩
      rcases Configuration.mem_install_network.mp listed with before | ⟨action, emitted, packed⟩
      · exact inductionHypothesis before
      · exact (ranked_run run).respond_sendsBounded enabled response action packet emitted packed

/-- A bounded message can be taken in. -/
theorem NetworkMessage.Bounded.safe {message : NetworkMessage} (bounded : message.Bounded)
    (node : RaftNode) : (Call.receive message).Safe node := by
  have capacity : vecCapacity + 1 < wordSize := by decide
  cases message with
  | requestVote sender request => exact True.intro
  | requestVoteResponse sender response => exact True.intro
  | appendEntries sender request =>
      intro _ _ nonempty
      have room := bounded nonempty
      exact ⟨by omega, by omega⟩
  | appendEntriesResponse sender response =>
      intro _ _ _ reported named
      have room := bounded reported named
      omega

/-- Whatever is on the network, its recipient takes it in. -/
theorem Run.takes_in (run : Run peers history config) {packet : Packet}
    (listed : packet ∈ config.network) :
    Exists fun result => dispatch (config.nodes packet.recipient) packet.message = .ok result :=
  (((ranked_run run).nodes packet.recipient).steady.returns_iff (.receive packet.message)).mpr
    ((run.bounded listed).safe _)

end Runs
end Cluster
end RaftStore
