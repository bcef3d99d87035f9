import RaftStore.Cluster.Calls
import RaftStore.Collections.Congruential

namespace RaftStore
namespace Cluster

open Raft Systems Collections RaftNode

/-!
# Timers

A node that does not lead counts its ticks down to an election, and starts over
whenever it accepts a leader or grants a vote.  A leader counts its ticks down to
the next heartbeat.  Both countdowns are compared here with what can be seen of a
run from outside: the ticks since the node last heard from somebody, and the
ticks since a leader last sent to all others.  Nothing is assumed of the messages.

Where an election countdown starts is drawn from a generator that goes through all of
its states.  So no two draws in a row are the same, every timeout comes again, and two
nodes whose countdowns run out together do not go on like that.
-/

/-! ## The generator -/

/-- The generator that the timeouts are drawn from. -/
def generator : Congruential where
  bits := 64
  factor := 6364136223846793005
  increment := 1442695040888963407
  bits_pos := by decide
  factor_mod := by decide
  increment_mod := by decide

/-- The timeout for a state of the generator. -/
def timeoutOf (seed : Nat) : Nat :=
  seed % (electionTimeoutMax - electionTimeoutMin) + electionTimeoutMin

theorem le_timeoutOf (seed : Nat) : electionTimeoutMin ≤ timeoutOf seed := Nat.le_add_left _ _

theorem timeoutOf_lt (seed : Nat) : timeoutOf seed < electionTimeoutMax :=
  Nat.add_lt_of_lt_sub (Nat.mod_lt _ (by decide))

/-! ## What can be seen of a run -/

/-- One step of a run of one node. -/
abbrev Moment := Systems.Transition RaftNode Occurrence (List Action)

/-- At this call the node accepts a leader or grants a vote. -/
def Heard (node : RaftNode) : Call -> Prop
  | .receive (.appendEntries _ request) => node.state.currentTerm ≤ request.term
  | .receive (.requestVote _ request) => node.state.currentTerm ≤ request.term ∧
      (canVote (node.raiseTerm request.term).state.votedFor request.candidateId &&
        candidateUpToDate node.state.log request) = true
  | _ => False

instance (node : RaftNode) (call : Call) : Decidable (Heard node call) :=
  match call with
  | .receive (.appendEntries _ _) => inferInstanceAs (Decidable (_ ≤ _))
  | .receive (.requestVote _ _) => inferInstanceAs (Decidable (_ ∧ _))
  | .receive (.requestVoteResponse _ _) => inferInstanceAs (Decidable False)
  | .receive (.appendEntriesResponse _ _) => inferInstanceAs (Decidable False)
  | .tick => inferInstanceAs (Decidable False)
  | .propose _ => inferInstanceAs (Decidable False)

/-- The ticks that a node has waited as a follower or candidate since it last
heard from somebody, stood for election or restarted. -/
def silence : List Moment -> Nat
  | [] => 0
  | moment :: older =>
      match moment.event with
      | .restart => 0
      | .call .tick =>
          if moment.source.state.role = .leader then silence older
          else if moment.source.state.currentTerm < moment.target.state.currentTerm then 0
          else silence older + 1
      | .call call => if Heard moment.source call then 0 else silence older

/-- The draws since a node last started, the one at its start included. -/
def draws : List Moment -> Nat
  | [] => 1
  | moment :: older =>
      match moment.event with
      | .restart => 1
      | .call .tick =>
          if moment.source.state.role = .leader then draws older
          else if moment.source.state.currentTerm < moment.target.state.currentTerm then
            draws older + 1
          else draws older
      | .call call => if Heard moment.source call then draws older + 1 else draws older

/-- The action is a replication request to the peer. -/
def asksToReplicate (peer : Nat) : Action -> Bool
  | .sendAppendEntries recipient _ => recipient = peer
  | _ => false

/-- The actions have a replication request for every other node. -/
def greets (node : RaftNode) (actions : List Action) : Bool :=
  node.state.otherPeers.all fun peer => actions.any (asksToReplicate peer)

/-- The ticks of a leader since it last sent a request to every other node. -/
def pause : List Moment -> Nat
  | [] => 0
  | moment :: older =>
      if moment.target.state.role ≠ .leader then 0
      else match moment.event with
        | .call .tick => if greets moment.source moment.output then 0 else pause older + 1
        | _ => pause older

section Calls

variable {node after : RaftNode} {actions : List Action}

/-! ## The election countdown -/

/-- The duration of the countdown is the one for the state of the generator. -/
def Drawn (node : RaftNode) : Prop := node.electionTimeoutDuration = timeoutOf node.randomSeed

theorem Drawn.low (drawn : Drawn node) : electionTimeoutMin ≤ node.electionTimeoutDuration :=
  drawn ▸ le_timeoutOf _

theorem Drawn.high (drawn : Drawn node) : node.electionTimeoutDuration < electionTimeoutMax :=
  drawn ▸ timeoutOf_lt _

/-- The countdown is at its start, after a draw from the generator in this state. -/
structure Rewound (seed : Nat) (node : RaftNode) : Prop where
  seed : node.randomSeed = generator.next seed
  drawn : Drawn node
  full : node.electionTimeout = node.electionTimeoutDuration

/-- The countdown is where it was, and so is the generator. -/
structure SameCountdown (node after : RaftNode) : Prop where
  timeout : after.electionTimeout = node.electionTimeout
  duration : after.electionTimeoutDuration = node.electionTimeoutDuration
  seed : after.randomSeed = node.randomSeed

theorem resetElectionTimeout_randomSeed (node : RaftNode) :
    node.resetElectionTimeout.randomSeed = generator.next node.randomSeed :=
  Nat.mod_add_mod _ _ _

theorem rewound_resetElectionTimeout {seed : Nat} (same : node.randomSeed = seed) :
    Rewound seed node.resetElectionTimeout where
  seed := same ▸ resetElectionTimeout_randomSeed node
  drawn := rfl
  full := rfl

theorem SameCountdown.drawn (same : SameCountdown node after) (drawn : Drawn node) :
    Drawn after := by
  rw [Drawn, same.duration, same.seed]
  exact drawn

theorem Rewound.congr {seed : Nat} (rewound : Rewound seed node) (same : SameCountdown node after) :
    Rewound seed after where
  seed := same.seed.trans rewound.seed
  drawn := same.drawn rewound.drawn
  full := by rw [same.timeout, same.duration, rewound.full]

theorem rewound_withPersistence {ε : Type} (id : Nat) (peers : List Nat)
    (persister : StatePersister) (loaded : Except ε (Option PersistentState)) :
    Rewound id (withPersistence id peers persister loaded) := by
  apply rewound_resetElectionTimeout
  split <;> rfl

theorem rewound_reborn (id : Nat) (peers : List Nat) (node : RaftNode) :
    Rewound id (reborn id peers node) := by
  unfold reborn
  split
  · exact rewound_resetElectionTimeout rfl
  · exact rewound_withPersistence id peers _ _

theorem rewound_candidacy (node : RaftNode) : Rewound node.randomSeed node.candidacy :=
  (rewound_resetElectionTimeout rfl).congr ⟨rfl, rfl, rfl⟩

/-- A started election raises the term and starts the countdown over. -/
theorem startElection_rewound (started : node.startElection = .ok (after, actions)) :
    Rewound node.randomSeed after ∧ after.state.currentTerm = node.state.currentTerm + 1 := by
  rcases startElection_eq_ok.mp started with ⟨_, result⟩
  split at result
  · cases result
    exact ⟨(rewound_candidacy node).congr ⟨rfl, rfl, rfl⟩, rfl⟩
  · cases result
    exact ⟨rewound_candidacy node, rfl⟩

theorem tick_of_leader (leads : node.state.role = .leader) : node.tick = .ok node.tickHeartbeat := by
  unfold tick
  rw [leads]

theorem tick_of_not_leader (follows : node.state.role ≠ .leader) : node.tick = node.tickElection := by
  unfold tick
  cases role : node.state.role with
  | follower => rfl
  | candidate => rfl
  | leader => exact absurd role follows

/-- As long as the countdown has not come to its end a tick only counts. -/
theorem tick_of_waiting (follows : node.state.role ≠ .leader) (waiting : 1 < node.electionTimeout) :
    node.tick = .ok ({ node with electionTimeout := node.electionTimeout - 1 }, []) := by
  rw [tick_of_not_leader follows, tickElection]
  exact if_pos (Nat.sub_pos_of_lt waiting)

/-- The last tick of the countdown starts an election. -/
theorem tick_of_due (follows : node.state.role ≠ .leader) (due : node.electionTimeout ≤ 1) :
    node.tick = ({ node with electionTimeout := node.electionTimeout - 1 } : RaftNode).startElection := by
  rw [tick_of_not_leader follows, tickElection]
  exact if_neg (by simp only; omega)

theorem sameCountdown_raiseTerm (node : RaftNode) (term : Nat) :
    SameCountdown node (node.raiseTerm term) := by
  unfold raiseTerm
  split <;> exact ⟨rfl, rfl, rfl⟩

theorem rewound_castVote {seed : Nat} (same : node.randomSeed = seed) (candidate : Nat) :
    Rewound seed (node.castVote candidate) := by
  have drawn : Rewound seed ({ node with state := { node.state with
      votedFor := some candidate } } : RaftNode).resetElectionTimeout :=
    rewound_resetElectionTimeout same
  exact drawn.congr ⟨rfl, rfl, rfl⟩

/-- A received message starts the countdown over if the node hears, and leaves it
alone if not. -/
theorem dispatch_countdown {message : NetworkMessage}
    (dispatched : dispatch node message = .ok (after, actions)) :
    (Heard node (.receive message) ∧ Rewound node.randomSeed after) ∨
    (¬ Heard node (.receive message) ∧ SameCountdown node after) := by
  cases dispatch_handled dispatched with
  | requestVote sender request =>
      rcases node.handleRequestVote_cases request with
        ⟨stale, equal⟩ | ⟨current, free, upToDate, equal⟩ | ⟨_, refused, equal⟩
      · rw [equal]
        exact Or.inr ⟨fun heard => Nat.not_lt_of_le heard.1 stale, rfl, rfl, rfl⟩
      · rw [equal]
        refine Or.inl ⟨⟨current, Bool.and_eq_true_iff.mpr ⟨free, upToDate⟩⟩, ?_⟩
        exact rewound_castVote (sameCountdown_raiseTerm node request.term).seed request.candidateId
      · rw [equal]
        refine Or.inr ⟨fun heard => ?_, sameCountdown_raiseTerm node request.term⟩
        have granted := heard.2
        rw [refused] at granted
        cases granted
  | requestVoteResponse sender response =>
      refine Or.inr ⟨False.elim, ?_⟩
      have counted : SameCountdown node (node.countVote sender response) := by
        unfold countVote
        split <;> exact ⟨rfl, rfl, rfl⟩
      rcases node.handleRequestVoteResponse_cases sender response with
        equal | ⟨_, _, equal⟩ | ⟨_, _, equal⟩
      · rw [equal]
        exact ⟨rfl, rfl, rfl⟩
      · rw [equal]
        exact ⟨rfl, rfl, rfl⟩
      · rw [equal]
        split <;> exact ⟨counted.timeout, counted.duration, counted.seed⟩
  | appendEntries sender request returned =>
      have accepted : Rewound node.randomSeed (node.acceptLeader request) :=
        (rewound_resetElectionTimeout rfl).congr ⟨rfl, rfl, rfl⟩
      rcases handleAppendEntries_cases returned with
        ⟨stale, rfl, _⟩ | ⟨current, _, rfl, _⟩ | ⟨current, _, inserted, ok, rfl, _⟩
      · exact Or.inr ⟨fun heard => Nat.not_lt_of_le heard stale, rfl, rfl, rfl⟩
      · exact Or.inl ⟨current, accepted⟩
      · rcases inserted.followCommit_shape request.leaderCommit with ⟨_, _, _, _, shape⟩
        rcases insertEntries_shape ok with ⟨_, _, rfl⟩
        rw [shape]
        exact Or.inl ⟨current, accepted.congr ⟨rfl, rfl, rfl⟩⟩
  | appendEntriesResponse sender response returned =>
      refine Or.inr ⟨False.elim, ?_⟩
      rcases handleAppendEntriesResponse_cases returned with
        ⟨_, rfl, _⟩ | ⟨_, _, rfl, _⟩ | ⟨_, _, _, recorded, ok, equal⟩ | ⟨_, _, _, ok, _⟩
      · exact ⟨rfl, rfl, rfl⟩
      · exact ⟨rfl, rfl, rfl⟩
      · rcases recordMatch_eq_ok ok with ⟨matchIndex, nextIndex, rfl, _⟩
        rcases maybeAdvanceCommitIndex_shape { node with state := { node.state with
          matchIndex := matchIndex, nextIndex := nextIndex } } with ⟨_, _, _, _, shape⟩
        rw [shape] at equal
        cases equal
        exact ⟨rfl, rfl, rfl⟩
      · rcases recordRejection_eq_ok ok with ⟨_, rfl, _⟩
        exact ⟨rfl, rfl, rfl⟩

theorem propose_countdown {command : LogCommand} {emitted : Option (List Action)}
    (proposed : node.propose command = .ok (after, emitted)) : SameCountdown node after := by
  rcases propose_cases proposed with ⟨_, rfl, _⟩ | ⟨_, _, rfl, _⟩
  · exact ⟨rfl, rfl, rfl⟩
  · rcases (node.withEntry command).maybeAdvanceCommitIndex_shape with ⟨_, _, _, _, shape⟩
    rw [shape]
    exact ⟨rfl, rfl, rfl⟩

/-! ## Heartbeats -/

/-- A leader has a probe for every other node. -/
def Probes (node : RaftNode) : Prop :=
  node.state.nextIndex.map Prod.fst = node.state.otherPeers

/-- A leader with a probe for every other node sends to all of them. -/
theorem Probes.greets (probes : Probes node) : greets node node.sendHeartbeats = true := by
  refine List.all_eq_true.mpr fun peer listed => ?_
  have key : peer ∈ node.state.nextIndex.map Prod.fst := by
    rw [probes]
    exact listed
  rcases List.mem_map.mp key with ⟨pair, present, same⟩
  have found : (node.state.nextIndex.find? (fun pair => pair.1 = peer)).isSome :=
    List.find?_isSome.mpr ⟨pair, present, decide_eq_true same⟩
  rcases Option.isSome_iff_exists.mp found with ⟨first, found⟩
  obtain ⟨request, sent⟩ : Exists fun request =>
      node.replicateToPeer peer = some (.sendAppendEntries peer request) := by
    unfold replicateToPeer
    rw [found, Option.map_some]
    exact ⟨_, rfl⟩
  exact List.any_eq_true.mpr ⟨_, List.mem_filterMap.mpr ⟨peer, listed, sent⟩, decide_eq_true rfl⟩

theorem probes_winElection (node : RaftNode) : Probes node.winElection.1 := by
  change (node.state.otherPeers.map (fun peerId => (peerId, _))).map Prod.fst =
    node.state.otherPeers
  rw [List.map_map]
  exact List.map_id _

/-- A leader counts the replicas of every other node. -/
def Counts (node : RaftNode) : Prop :=
  node.state.matchIndex.map Prod.fst = node.state.otherPeers

theorem counts_winElection (node : RaftNode) : Counts node.winElection.1 := by
  change (node.state.otherPeers.map (fun peerId => (peerId, 0))).map Prod.fst =
    node.state.otherPeers
  rw [List.map_map]
  exact List.map_id _

/-- A leader waits three ticks at most, and it can reach every other node. -/
structure Beats (node : RaftNode) (waited : Nat) : Prop where
  probes : Probes node
  counts : Counts node
  timeout : node.heartbeatTimeout + waited ≤ heartbeatInterval
  patience : waited < heartbeatInterval

/-- A call at which a leader stays leader and keeps its countdown, its peers and
the keys of its tables. -/
structure Steadfast (node after : RaftNode) : Prop where
  leads : node.state.role = .leader
  heartbeat : after.heartbeatTimeout = node.heartbeatTimeout
  peers : after.state.otherPeers = node.state.otherPeers
  keys : after.state.nextIndex.map Prod.fst = node.state.nextIndex.map Prod.fst
  counted : after.state.matchIndex.map Prod.fst = node.state.matchIndex.map Prod.fst

theorem Beats.steadfast {waited : Nat} (beats : Beats node waited) (steadfast : Steadfast node after) :
    Beats after waited where
  probes := by
    rw [Probes, steadfast.keys, steadfast.peers]
    exact beats.probes
  counts := by
    rw [Counts, steadfast.counted, steadfast.peers]
    exact beats.counts
  timeout := by
    rw [steadfast.heartbeat]
    exact beats.timeout
  patience := beats.patience

theorem Beats.mono {waited less : Nat} (beats : Beats node waited) (below : less ≤ waited) :
    Beats node less where
  probes := beats.probes
  counts := beats.counts
  timeout := Nat.le_trans (Nat.add_le_add_left below _) beats.timeout
  patience := Nat.lt_of_le_of_lt below beats.patience

theorem reborn_role (id : Nat) (peers : List Nat) (node : RaftNode) :
    (reborn id peers node).state.role = .follower := by
  unfold reborn
  split
  · rfl
  · exact (awakened_withPersistence id peers _ _).role

theorem beats_winElection (node : RaftNode) : Beats node.winElection.1 0 :=
  ⟨probes_winElection node, counts_winElection node, Nat.zero_le _, by decide⟩

/-- A node that leads after a received message has led before or has just won. -/
theorem dispatch_beats {message : NetworkMessage}
    (dispatched : dispatch node message = .ok (after, actions)) (leads : after.state.role = .leader) :
    Steadfast node after ∨ (node.state.role ≠ .leader ∧ Beats after 0) := by
  cases dispatch_handled dispatched with
  | requestVote sender request =>
      rcases node.handleRequestVote_cases request with
        ⟨_, equal⟩ | ⟨_, _, _, equal⟩ | ⟨_, _, equal⟩
      · rw [equal] at leads ⊢
        exact Or.inl ⟨leads, rfl, rfl, rfl, rfl⟩
      · rw [equal] at leads ⊢
        have same := raiseTerm_of_leads leads
        rw [same] at leads ⊢
        exact Or.inl ⟨leads, rfl, rfl, rfl, rfl⟩
      · rw [equal] at leads ⊢
        have same := raiseTerm_of_leads leads
        rw [same] at leads ⊢
        exact Or.inl ⟨leads, rfl, rfl, rfl, rfl⟩
  | requestVoteResponse sender response =>
      rcases node.handleRequestVoteResponse_cases sender response with
        equal | ⟨_, _, equal⟩ | ⟨stands, _, equal⟩
      · rw [equal] at leads ⊢
        exact Or.inl ⟨leads, rfl, rfl, rfl, rfl⟩
      · rw [equal] at leads
        simp at leads
      · have before : node.state.role ≠ .leader := by
          rw [stands]
          rintro ⟨⟩
        rw [equal] at leads ⊢
        split at leads
        · next won =>
            rw [if_pos won]
            exact Or.inr ⟨before, beats_winElection _⟩
        · rw [countVote_state] at leads
          exact absurd leads before
  | appendEntries sender request returned =>
      rcases handleAppendEntries_cases returned with
        ⟨_, rfl, _⟩ | ⟨_, _, rfl, _⟩ | ⟨_, _, inserted, ok, rfl, _⟩
      · exact Or.inl ⟨leads, rfl, rfl, rfl, rfl⟩
      · simp at leads
      · rcases inserted.followCommit_shape request.leaderCommit with ⟨_, _, _, _, shape⟩
        rcases insertEntries_shape ok with ⟨_, _, rfl⟩
        rw [shape] at leads
        simp [withCommit] at leads
  | appendEntriesResponse sender response returned =>
      rcases handleAppendEntriesResponse_cases returned with
        ⟨follows, rfl, _⟩ | ⟨_, _, rfl, _⟩ | ⟨led, _, _, recorded, ok, equal⟩ | ⟨led, _, _, ok, _⟩
      · exact absurd leads follows
      · simp at leads
      · rcases recordMatch_eq_ok ok with ⟨matchIndex, nextIndex, rfl, tables⟩
        rcases maybeAdvanceCommitIndex_shape { node with state := { node.state with
          matchIndex := matchIndex, nextIndex := nextIndex } } with ⟨_, _, _, _, shape⟩
        rw [shape] at equal
        cases equal
        rcases tables with ⟨_, rfl, rfl⟩ | ⟨_, _, matched, updated⟩
        · exact Or.inl ⟨led, rfl, rfl, rfl, rfl⟩
        · exact Or.inl ⟨led, rfl, rfl, updateFirst_keys updated, updateFirst_keys matched⟩
      · rcases recordRejection_eq_ok ok with ⟨_, rfl, updated⟩
        exact Or.inl ⟨led, rfl, rfl, updateFirst_keys updated, rfl⟩

theorem propose_beats {command : LogCommand} {emitted : Option (List Action)}
    (proposed : node.propose command = .ok (after, emitted)) (leads : after.state.role = .leader) :
    Steadfast node after := by
  rcases propose_cases proposed with ⟨follows, rfl, _⟩ | ⟨led, _, rfl, _⟩
  · exact absurd leads follows
  · rcases (node.withEntry command).maybeAdvanceCommitIndex_shape with ⟨_, _, _, _, shape⟩
    rw [shape]
    exact ⟨led, rfl, rfl, rfl, rfl⟩

/-- A tick of a leader sends to all others, or leaves something of the countdown. -/
theorem tick_beats {waited : Nat} (led : node.state.role = .leader) (beats : Beats node waited)
    (ticked : node.tick = .ok (after, actions)) :
    (greets node actions = true ∧ Beats after 0) ∨ Beats after (waited + 1) := by
  rw [tick_of_leader led] at ticked
  have timeout := beats.timeout
  simp only [tickHeartbeat, Except.ok.injEq] at ticked
  split at ticked
  · next left =>
      cases ticked
      refine Or.inr ⟨beats.probes, beats.counts, ?_, ?_⟩
      · simp only
        omega
      · omega
  · cases ticked
    exact Or.inl ⟨beats.probes.greets, beats.probes, beats.counts, Nat.le_refl _, by decide⟩

/-- A tick at which a node that did not lead wins sends to all others. -/
theorem tick_wins (follows : node.state.role ≠ .leader)
    (ticked : node.tick = .ok (after, actions)) (leads : after.state.role = .leader) :
    greets node actions = true ∧ Beats after 0 := by
  rcases tick_cases ticked with ⟨_, rfl, _⟩ | ⟨led, _⟩ | ⟨_, timeout, started⟩
  · exact absurd leads follows
  · exact absurd led follows
  · rcases startElection_eq_ok.mp started with ⟨_, result⟩
    split at result
    · cases result
      let candidate := ({ node with electionTimeout := timeout } : RaftNode).candidacy
      exact ⟨(probes_winElection candidate).greets, beats_winElection candidate⟩
    · cases result
      cases leads

end Calls

section Runs

variable {id : Nat} {peers : List Nat} {history : List Moment} {node after : RaftNode}
  {occurrence : Occurrence} {actions : List Action}

/-! ## Runs of one node -/

/-- The countdown and the silence make up the time that was drawn, and the generator has
made as many draws as can be seen. -/
structure Timed (id : Nat) (history : List Moment) (node : RaftNode) : Prop where
  counts : node.electionTimeout + silence history = node.electionTimeoutDuration
  running : 0 < node.electionTimeout
  seed : node.randomSeed = generator.next^[draws history] id
  drawn : Drawn node

theorem Rewound.timed (count : Nat)
    (rewound : Rewound (generator.next^[count] id) node) (quiet : silence history = 0)
    (drew : draws history = count + 1) : Timed id history node where
  counts := by
    rw [quiet, rewound.full, Nat.add_zero]
  running := by
    rw [rewound.full]
    exact Nat.lt_of_lt_of_le (by decide) rewound.drawn.low
  seed := by
    rw [drew, Function.iterate_succ_apply', rewound.seed]
  drawn := rewound.drawn

theorem Timed.keep {later : List Moment} (timed : Timed id history node)
    (same : SameCountdown node after) (silent : silence later = silence history)
    (drew : draws later = draws history) : Timed id later after where
  counts := by
    rw [same.timeout, same.duration, silent]
    exact timed.counts
  running := by
    rw [same.timeout]
    exact timed.running
  seed := by
    rw [drew, same.seed]
    exact timed.seed
  drawn := same.drawn timed.drawn

/-- A tick of a node that does not lead starts an election when the silence has
lasted for the time drawn, and counts if not. -/
theorem Timed.tick (timed : Timed id history node) (follows : node.state.role ≠ .leader)
    (ticked : node.tick = .ok (after, actions)) :
    (silence history + 1 = node.electionTimeoutDuration ∧ Rewound node.randomSeed after ∧
      after.state.currentTerm = node.state.currentTerm + 1) ∨
    (silence history + 1 < node.electionTimeoutDuration ∧
      after = { node with electionTimeout := node.electionTimeout - 1 }) := by
  have counts := timed.counts
  have running := timed.running
  by_cases waiting : 1 < node.electionTimeout
  · rw [tick_of_waiting follows waiting] at ticked
    cases ticked
    exact Or.inr ⟨by omega, rfl⟩
  · rw [tick_of_due follows (by omega)] at ticked
    exact Or.inl ⟨by omega, startElection_rewound ticked⟩

theorem Timed.step (timed : Timed id history node)
    (stepped : occurrence.step id peers node = some (after, actions)) :
    Timed id (⟨node, occurrence, actions, after⟩ :: history) after := by
  have seed := timed.seed
  cases occurrence with
  | restart =>
      cases stepped
      exact Rewound.timed 0 (rewound_reborn id peers node) rfl rfl
  | call made =>
      have ran := toOption_eq_some.mp stepped
      cases made with
      | tick =>
          by_cases leads : node.state.role = .leader
          · have same : SameCountdown node after := by
              change node.tick = _ at ran
              rw [tick_of_leader leads] at ran
              simp only [tickHeartbeat, Except.ok.injEq] at ran
              split at ran <;> cases ran <;> exact ⟨rfl, rfl, rfl⟩
            exact timed.keep same (if_pos leads) (if_pos leads)
          · rcases timed.tick leads ran with ⟨_, rewound, term⟩ | ⟨early, rfl⟩
            · have later : node.state.currentTerm < after.state.currentTerm := by omega
              rw [seed] at rewound
              refine rewound.timed _ ?_ ?_
              · simp only [silence, if_neg leads, if_pos later]
              · simp only [draws, if_neg leads, if_pos later]
            · have waited : silence (⟨node, .call .tick, actions,
                  { node with electionTimeout := node.electionTimeout - 1 }⟩ :: history) =
                  silence history + 1 := by
                simp only [silence, if_neg leads]
                exact if_neg (Nat.lt_irrefl _)
              have counts := timed.counts
              refine ⟨?_, ?_, ?_, timed.drawn⟩
              · rw [waited]
                simp only
                omega
              · simp only
                omega
              · simp only [draws, if_neg leads, if_neg (Nat.lt_irrefl _)]
                exact seed
      | propose command =>
          rcases Outcome.map_eq_ok.mp ran with ⟨⟨proposed, emitted⟩, ok, equal⟩
          cases equal
          refine timed.keep (propose_countdown ok) ?_ ?_
          · simp only [silence]
            exact if_neg fun heard => heard
          · simp only [draws]
            exact if_neg fun heard => heard
      | receive message =>
          rcases dispatch_countdown ran with ⟨heard, rewound⟩ | ⟨unheard, same⟩
          · rw [seed] at rewound
            exact rewound.timed _ (if_pos heard) (if_pos heard)
          · exact timed.keep same (if_neg unheard) (if_neg unheard)

theorem Solitary.timed (run : Solitary id peers history node) : Timed id history node := by
  induction run with
  | start begins =>
      rcases begins with rfl | rfl
      · exact Rewound.timed 0 (rewound_resetElectionTimeout rfl) rfl rfl
      · exact Rewound.timed 0 (rewound_withPersistence id peers _ _) rfl rfl
  | next _ stepped inductionHypothesis => exact inductionHypothesis.step stepped

/-- A tick of a node that does not lead starts an election after at least
`electionTimeoutMin` and less than `electionTimeoutMax` ticks of silence, or leaves
the term and the role alone, which it no longer does when only one tick is left. -/
def ElectsInTime (history : List Moment) : Prop :=
  forall newer source actions target older,
    history = newer ++ ⟨source, .call .tick, actions, target⟩ :: older ->
    source.state.role ≠ .leader ->
    (target.state.currentTerm = source.state.currentTerm + 1 ∧
      electionTimeoutMin ≤ silence older + 1 ∧ silence older + 1 < electionTimeoutMax) ∨
    (target.state = source.state ∧ silence older + 2 < electionTimeoutMax)

/-- **Elections come in time.**  In every run of one node, with any messages,
proposals and restarts, elections are started neither early nor late by the ticks
that the node takes while it does not lead. -/
theorem elections_in_time (run : Solitary id peers history node) : ElectsInTime history := by
  rintro newer source actions target older rfl follows
  rcases run.split with ⟨earlier, stepped⟩
  change Occurrence.step id peers source (.call .tick) = some (target, actions) at stepped
  have timed : Timed id older source := Solitary.timed earlier
  have low := timed.drawn.low
  have high := timed.drawn.high
  rcases timed.tick follows (toOption_eq_some.mp stepped) with ⟨due, _, term⟩ | ⟨early, rfl⟩
  · exact Or.inl ⟨term, by omega, by omega⟩
  · exact Or.inr ⟨rfl, by omega⟩

/-- A follower hears from a leader after 20 ticks.  The election that had come near
is put off: 59 ticks of silence pass before it. -/
theorem elections_in_time_postponed :
    Exists fun history => Exists fun node => Solitary 1 [1, 2, 3] history node ∧
      history.length = 80 ∧ node.state.role = .candidate ∧ node.state.currentTerm = 2 ∧
      ElectsInTime history := by
  have checked : ((solitude 1 [1, 2, 3]).execute
      (List.replicate 20 (.call .tick) ++
        .call (.receive (.appendEntries 2 ⟨1, 2, 0, 0, [], 0⟩)) :: List.replicate 59 (.call .tick))
      (RaftNode.withPersistence 1 [1, 2, 3] .new (.ok none : Except Unit _))).any (fun result =>
        decide (result.1.length = 80 ∧ result.2.state.role = .candidate ∧
          result.2.state.currentTerm = 2)) = true := by
    decide +kernel
  rcases System.exists_run (Or.inr rfl) checked with ⟨history, node, run, holds⟩
  rcases of_decide_eq_true holds with ⟨length, role, term⟩
  exact ⟨history, node, run, length, role, term, elections_in_time run⟩

/-- A leader waits within its bounds, and no other node is said to wait. -/
structure Paced (history : List Moment) (node : RaftNode) : Prop where
  leads : node.state.role = .leader -> Beats node (pause history)
  follows : node.state.role ≠ .leader -> pause history = 0

theorem Paced.step (paced : Paced history node)
    (stepped : occurrence.step id peers node = some (after, actions)) :
    Paced (⟨node, occurrence, actions, after⟩ :: history) after := by
  refine ⟨fun leads => ?_, fun follows => if_pos follows⟩
  simp only [pause]
  rw [if_neg (not_not.mpr leads)]
  cases occurrence with
  | restart =>
      cases stepped
      rw [reborn_role] at leads
      cases leads
  | call made =>
      have ran := toOption_eq_some.mp stepped
      cases made with
      | tick =>
          by_cases led : node.state.role = .leader
          · rcases tick_beats led (paced.leads led) ran with ⟨greeted, beats⟩ | beats
            · simp only [if_pos greeted]
              exact beats
            · by_cases greeted : greets node actions = true
              · simp only [if_pos greeted]
                exact beats.mono (Nat.zero_le _)
              · simp only [if_neg greeted]
                exact beats
          · rcases tick_wins led ran leads with ⟨greeted, beats⟩
            simp only [if_pos greeted]
            exact beats
      | propose command =>
          rcases Outcome.map_eq_ok.mp ran with ⟨⟨proposed, emitted⟩, ok, equal⟩
          cases equal
          have steadfast := propose_beats ok leads
          exact (paced.leads steadfast.leads).steadfast steadfast
      | receive message =>
          rcases dispatch_beats ran leads with steadfast | ⟨follows, beats⟩
          · exact (paced.leads steadfast.leads).steadfast steadfast
          · simp only [paced.follows follows]
            exact beats

theorem Solitary.paced (run : Solitary id peers history node) : Paced history node := by
  induction run with
  | start begins =>
      refine ⟨fun leads => ?_, fun _ => rfl⟩
      rcases begins with rfl | rfl <;> cases leads
  | next _ stepped inductionHypothesis => exact inductionHypothesis.step stepped

/-- **Heartbeats come in time.**  In every run of one node, a leader never lets
`heartbeatInterval` ticks pass without a request to every other node. -/
theorem heartbeats_in_time (run : Solitary id peers history node) :
    pause history < heartbeatInterval := by
  have paced := run.paced
  by_cases leads : node.state.role = .leader
  · exact (paced.leads leads).patience
  · rw [paced.follows leads]
    decide

/-- A node is elected, sends its heartbeats and ticks twice, the most it can without
sending to all again. -/
theorem heartbeats_in_time_waiting :
    Exists fun history => Exists fun node => Solitary 1 [1, 2, 3] history node ∧
      node.state.role = .leader ∧ pause history = 2 ∧ pause history < heartbeatInterval := by
  have checked : ((solitude 1 [1, 2, 3]).execute
      (List.replicate 60 (.call .tick) ++
        [.call (.receive (.requestVoteResponse 2 ⟨1, true⟩)), .call .tick, .call .tick,
          .call (.propose (.put "k" "v")), .call .tick])
      (RaftNode.withPersistence 1 [1, 2, 3] .new (.ok none : Except Unit _))).any (fun result =>
        decide (result.2.state.role = .leader ∧ pause result.1 = 2)) = true := by
    decide +kernel
  rcases System.exists_run (Or.inr rfl) checked with ⟨history, node, run, holds⟩
  rcases of_decide_eq_true holds with ⟨role, waited⟩
  exact ⟨history, node, run, role, waited, heartbeats_in_time run⟩

end Runs
end Cluster
end RaftStore
