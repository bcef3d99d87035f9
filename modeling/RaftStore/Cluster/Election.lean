import RaftStore.Cluster.Stability
import RaftStore.Cluster.Repair
import Mathlib.Data.Finset.Max

namespace RaftStore
namespace Cluster

open Raft Consensus Systems RaftNode

/-!
# Elections that can be won

From whatever the cluster has come to, a node can still become the leader if
enough others have no more than a part of its log.  It waits until it may stand,
as often as it takes to leave their terms behind, and is given their votes.  All
other nodes and all messages on their way may be as they like: nothing that has
happened can stand in the way.
-/

/-- A tick of the active node, or the arrival of a packet at a node of the team, which
comes after the `old` first ones.  Nobody asks for anything, nobody restarts, and the
other nodes do nothing at all. -/
def Undertakes (active : Nat) (team : List Nat) (old : Nat) (config : Configuration) :
    Event -> Prop
  | .tick id => id = active
  | .deliver packet => packet.recipient ∈ team ∧ packet ∈ config.network.drop old
  | .propose _ _ => False
  | .restart _ => False

/-- The configuration is the given one but for one node, which has moved on and
sent its messages. -/
structure Moved (config : Configuration) (id : Nat) (node : RaftNode) (actions : List Action)
    (next : Configuration) : Prop where
  nodes : next.nodes = Function.update config.nodes id node
  keeps : config.network <+: next.network
  sends : forall action, action ∈ actions -> forall packet, packetOf id action = some packet ->
    packet ∈ next.network.drop config.network.length

/-- The node knows of no later term, and its log is a part of the given one. -/
structure Backs (config : Configuration) (term : Nat) (own : List LogEntry) (id : Nat) : Prop where
  behind : (config.nodes id).state.currentTerm ≤ term
  part : (config.nodes id).state.log.body <+: own

/-- The node with its election countdown somewhere else. -/
def waited (node : RaftNode) (timeout : Nat) : RaftNode :=
  { node with electionTimeout := timeout }

/-- The leader right after a heartbeat. -/
def rested (node : RaftNode) : RaftNode :=
  { node with heartbeatTimeout := heartbeatInterval }

/-- The node leads with the given log, and the others may follow it. -/
structure Leads (candidate : Nat) (own : List LogEntry) (quorum : List Nat)
    (config : Configuration) : Prop where
  role : (config.nodes candidate).state.role = .leader
  log : (config.nodes candidate).state.log = ⟨sentinel :: own⟩
  backs : forall id, id ∈ quorum ->
    Backs config (config.nodes candidate).state.currentTerm own id

/-- The request for a vote that goes with the given log. -/
def askFor (candidate term : Nat) (own : List LogEntry) : RequestVoteRequest :=
  ⟨term, candidate, own.length, lastTerm LogEntry.term own⟩

/-- The node stands for election.  The nodes in `asked` have voted for it, and those
in `rest` are asked, not among the `old` first packets, and free to do so. -/
structure Campaigns (old candidate term : Nat) (own : List LogEntry) (asked rest : List Nat)
    (config : Configuration) : Prop where
  role : (config.nodes candidate).state.role = .candidate
  current : (config.nodes candidate).state.currentTerm = term
  log : (config.nodes candidate).state.log = ⟨sentinel :: own⟩
  votes : (config.nodes candidate).votesReceived = insert candidate asked.toFinset
  asks : forall id, id ∈ rest ->
    ⟨id, .requestVote candidate (askFor candidate term own)⟩ ∈ config.network.drop old
  free : forall id, id ∈ rest -> (config.nodes id).state.currentTerm < term
  backs : forall id, id ∈ asked ++ rest -> Backs config term own id

section Moves

variable {peers team : List Nat} {history : List Transition} {config middle next : Configuration}
  {id other active old : Nat} {node after : RaftNode} {actions emitted : List Action}

/-! ## Single steps -/

theorem Moved.self (moved : Moved config id node actions next) : next.nodes id = node := by
  rw [moved.nodes, Function.update_self]

theorem Moved.rest (moved : Moved config id node actions next) (different : other ≠ id) :
    next.nodes other = config.nodes other := by
  rw [moved.nodes, Function.update_of_ne different]

/-- Of two moves of one node the second counts. -/
theorem Moved.trans (first : Moved config id node actions middle)
    (second : Moved middle id after emitted next) : Moved config id after emitted next where
  nodes := by
    rw [second.nodes, first.nodes, Function.update_idem]
  keeps := first.keeps.trans second.keeps
  sends action listed packet sent :=
    List.drop_subset_drop_left _ first.keeps.length_le (second.sends action listed packet sent)

/-- What is sent now comes after what was sent before. -/
theorem Moved.sent (moved : Moved config id node actions next)
    (since : old ≤ config.network.length) {action : Action} (listed : action ∈ actions)
    {packet : Packet} (sent : packetOf id action = some packet) : packet ∈ next.network.drop old :=
  List.drop_subset_drop_left _ since (moved.sends action listed packet sent)

theorem Backs.moved {term : Nat} {own : List LogEntry} (backs : Backs config term own other)
    (moved : Moved config id node actions next) (different : other ≠ id) :
    Backs next term own other := by
  rcases backs with ⟨behind, part⟩
  rw [← moved.rest different] at behind part
  exact ⟨behind, part⟩

theorem Backs.mono {term later : Nat} {own longer : List LogEntry}
    (backs : Backs config term own id) (bound : term ≤ later) (grows : own <+: longer) :
    Backs config later longer id :=
  ⟨Nat.le_trans backs.behind bound, backs.part.trans grows⟩

theorem moved_install (config : Configuration) (id : Nat) (node : RaftNode)
    (actions : List Action) : Moved config id node actions (config.install id node actions) where
  nodes := rfl
  keeps := List.prefix_append _ _
  sends action listed packet sent := by
    change packet ∈ (config.network ++ _).drop config.network.length
    rw [List.drop_left]
    exact List.mem_filterMap.mpr ⟨action, listed, sent⟩

/-- A member can do what its handler returns. -/
theorem Run.can_respond (run : Run peers history config) {event : Event}
    {condition : Configuration -> Event -> Prop} (allowed : condition config event)
    (member : event.actor ∈ peers) (enabled : config.Enabled event)
    (responded : config.respond peers event = .ok (node, actions)) :
    (system peers).CanReach condition history (Moved config event.actor node actions) := by
  have stepped : config.step peers event =
      some (config.install event.actor node actions, actions) :=
    Configuration.step_eq_some.mpr ⟨member, enabled, node, responded, rfl⟩
  exact .step allowed (.here (run.next stepped) (moved_install config _ node actions))

/-- A packet that was sent can be delivered. -/
theorem Run.can_deliver (run : Run peers history config) (within : team ⊆ peers)
    (member : id ∈ team) {message : NetworkMessage}
    (sent : ⟨id, message⟩ ∈ config.network.drop old)
    (dispatched : dispatch (config.nodes id) message = .ok (node, actions)) :
    (system peers).CanReach (Undertakes active team old) history (Moved config id node actions) :=
  Run.can_respond run
    (show Undertakes active team old config (.deliver ⟨id, message⟩) from ⟨member, sent⟩)
    (show (Event.deliver ⟨id, message⟩).actor ∈ peers from within member)
    (List.mem_of_mem_drop sent) dispatched

theorem Run.can_tick (run : Run peers history config) (within : team ⊆ peers) (member : id ∈ team)
    (ticked : (config.nodes id).tick = .ok (node, actions)) :
    (system peers).CanReach (Undertakes id team old) history (Moved config id node actions) :=
  Run.can_respond run (show Undertakes id team old config (.tick id) from rfl)
    (show (Event.tick id).actor ∈ peers from within member) True.intro ticked

/-- Nothing is ever taken off the network. -/
theorem network_grows {event : Event} (stepped : config.step peers event = some (next, actions)) :
    config.network <+: next.network := by
  rcases Configuration.step_eq_some.mp stepped with ⟨_, _, node, _, rfl⟩
  exact List.prefix_append _ _

/-- A cluster can only start in one way. -/
theorem starts_unique (peers : List Nat) (left right : Configuration)
    (first : (system peers).Starts left) (second : (system peers).Starts right) : left = right :=
  Eq.trans first (Eq.symm second)

/-- Wherever the run can come to, what was sent before the start stays in front. -/
theorem Run.keeping (run : Run peers history config) (since : old ≤ config.network.length)
    {condition : Configuration -> Event -> Prop} {Goal : Configuration -> Prop}
    (reach : (system peers).CanReach condition history Goal) :
    (system peers).CanReach condition history
      (fun next => old ≤ next.network.length ∧ Goal next) :=
  reach.keep (fun state => old ≤ state.network.length) (starts_unique peers)
    (fun _ _ _ _ before stepped => Nat.le_trans before (network_grows stepped).length_le) run since

/-- The team goes on from where it has come to by itself. -/
theorem Run.can_go_on (run : Run peers history config) (since : old ≤ config.network.length)
    {condition : Configuration -> Event -> Prop} {Middle Goal : Configuration -> Prop}
    (reach : (system peers).CanReach condition history Middle)
    (rest : forall longer middle, Run peers longer middle -> old ≤ middle.network.length ->
      Middle middle -> (system peers).CanReach condition longer Goal) :
    (system peers).CanReach condition history Goal :=
  (run.keeping since reach).trans fun longer middle continued both =>
    rest longer middle continued both.1 both.2

/-- The node goes through an election from its present state. -/
def Stood (config : Configuration) (id : Nat) (next : Configuration) : Prop :=
  Exists fun timeout => Exists fun after => Exists fun actions =>
    (waited (config.nodes id) timeout).startElection = .ok (after, actions) ∧
      Moved config id after actions next

/-- At the end of its countdown a node stands for election. -/
theorem Run.stands_when_due (run : Run peers history config) (within : team ⊆ peers)
    (member : id ∈ team) (follows : (config.nodes id).state.role ≠ .leader)
    (room : (config.nodes id).state.currentTerm + 1 < wordSize)
    (due : (config.nodes id).electionTimeout ≤ 1) :
    (system peers).CanReach (Undertakes id team old) history (Stood config id) := by
  have started : (waited (config.nodes id)
      ((config.nodes id).electionTimeout - 1)).startElection = _ :=
    startElection_eq_ok.mpr ⟨room, rfl⟩
  exact (Run.can_tick run within member ((tick_of_due follows due).trans started)).mono
    fun _ moved => ⟨_, _, _, started, moved⟩

/-- A node that does not lead can stand for election. -/
theorem Run.can_stand (run : Run peers history config) (within : team ⊆ peers) (member : id ∈ team)
    (follows : (config.nodes id).state.role ≠ .leader)
    (room : (config.nodes id).state.currentTerm + 1 < wordSize) :
    (system peers).CanReach (Undertakes id team old) history (Stood config id) := by
  -- by induction on the ticks that are left
  induction left : (config.nodes id).electionTimeout generalizing history config with
  | zero => exact Run.stands_when_due run within member follows room (by omega)
  | succ remaining inductionHypothesis =>
      by_cases waiting : 1 < (config.nodes id).electionTimeout
      · refine (Run.can_tick run within member (tick_of_waiting follows waiting)).trans ?_
        intro longer middle continued moved
        have here : middle.nodes id =
          waited (config.nodes id) ((config.nodes id).electionTimeout - 1) := moved.self
        have shorter : (middle.nodes id).electionTimeout = remaining := by
          rw [here, left]
          rfl
        have again := inductionHypothesis continued (by rw [here]; exact follows)
          (by rw [here]; exact room) shorter
        refine again.mono ?_
        rintro next ⟨timeout, after, actions, started, later⟩
        rw [here] at started
        exact ⟨timeout, after, actions, started, moved.trans later⟩
      · exact Run.stands_when_due run within member follows room (by omega)

/-- A leader can send its heartbeats. -/
theorem Run.can_greet (run : Run peers history config) (within : team ⊆ peers) (member : id ∈ team)
    (leads : (config.nodes id).state.role = .leader) :
    (system peers).CanReach (Undertakes id team old) history
      (Moved config id (rested (config.nodes id)) (config.nodes id).sendHeartbeats) := by
  have due : forall node : RaftNode, node.heartbeatTimeout ≤ 1 ->
      node.tickHeartbeat = (rested node, node.sendHeartbeats) := fun node short =>
    if_neg (show ¬ node.heartbeatTimeout - 1 > 0 by omega)
  -- by induction on the ticks that are left
  induction left : (config.nodes id).heartbeatTimeout generalizing history config with
  | zero =>
      refine Run.can_tick run within member ?_
      rw [tick_of_leader leads, due _ (by omega)]
  | succ remaining inductionHypothesis =>
      by_cases waiting : 1 < (config.nodes id).heartbeatTimeout
      · have ticked : (config.nodes id).tick = .ok ({ config.nodes id with
            heartbeatTimeout := (config.nodes id).heartbeatTimeout - 1 }, []) := by
          rw [tick_of_leader leads]
          have remains : (config.nodes id).heartbeatTimeout - 1 > 0 := by omega
          exact congrArg Except.ok (if_pos remains)
        refine (Run.can_tick run within member ticked).trans ?_
        intro longer middle continued moved
        have here := moved.self
        have shorter : (middle.nodes id).heartbeatTimeout = remaining := by
          rw [here]
          exact Nat.sub_eq_of_eq_add left
        have again := inductionHypothesis continued (by rw [here]; exact leads) shorter
        rw [here] at again
        exact again.mono fun next later => moved.trans later
      · refine Run.can_tick run within member ?_
        rw [tick_of_leader leads, due _ (by omega)]

/-- Its heartbeats go to all others. -/
theorem Run.greeting (run : Run peers history config)
    (leads : (config.nodes id).state.role = .leader)
    (listed : other ∈ (config.nodes id).state.otherPeers) :
    Exists fun next => .sendAppendEntries other (requestAt (config.nodes id) next) ∈
      (config.nodes id).sendHeartbeats := by
  have beats := (Run.solitary run id).1.paced.leads leads
  have greeted := List.all_eq_true.mp beats.probes.greets other listed
  rcases List.any_eq_true.mp greeted with ⟨action, sent, asks⟩
  rcases mem_replicateToAllPeers sent with ⟨recipient, next, _, _, rfl⟩
  cases of_decide_eq_true asks
  exact ⟨next, sent⟩

end Moves

section Elections

variable {peers team : List Nat} {history : List Transition} {config next : Configuration}
  {candidate id high term : Nat} {own : List LogEntry} {asked rest quorum : List Nat}
  {ledger : Ledger Nat LogEntry} {node : RaftNode} {old : Nat}

/-! ## Standing -/

theorem Represents.majorityCount_eq (represents : Represents peers ledger id node) :
    node.state.majorityCount = peers.length / 2 + 1 := by
  rw [RaftState.majorityCount, represents.peers_eq]

theorem Represents.mem_otherPeers (represents : Represents peers ledger id node) {other : Nat}
    (member : other ∈ peers) (different : other ≠ id) : other ∈ node.state.otherPeers := by
  rw [RaftState.otherPeers, represents.peers_eq, represents.id_eq]
  exact List.mem_filter.mpr ⟨member, decide_eq_true different⟩

/-- What a vote request says about the log of its sender. -/
theorem askFor_eq {log : RaftLog} (holds : log = ⟨sentinel :: own⟩) :
    (⟨term, candidate, log.lastIndex, log.lastTerm⟩ : RequestVoteRequest) =
      askFor candidate term own := by
  rw [RaftLog.lastIndex_eq_length_body, holds,
    RaftLog.lastTerm_eq_body (RaftLog.hasSentinel_mk own), RaftLog.body_mk]
  rfl

/-- What comes of an election that a node starts: it has won alone, or it has asked
all others. -/
structure Stands (peers : List Nat) (config : Configuration) (candidate : Nat) (own : List LogEntry)
    (next : Configuration) : Prop where
  current : (next.nodes candidate).state.currentTerm =
    (config.nodes candidate).state.currentTerm + 1
  log : (next.nodes candidate).state.log = ⟨sentinel :: own⟩
  others : forall id, id ≠ candidate -> next.nodes id = config.nodes id
  outcome : (peers.length / 2 = 0 ∧ (next.nodes candidate).state.role = .leader) ∨
    (peers.length / 2 ≠ 0 ∧ (next.nodes candidate).state.role = .candidate ∧
      (next.nodes candidate).votesReceived = {candidate} ∧
      forall id, id ∈ peers -> id ≠ candidate ->
        ⟨id, .requestVote candidate
          (askFor candidate ((config.nodes candidate).state.currentTerm + 1) own)⟩ ∈
            next.network.drop config.network.length)

theorem Stood.stands (stood : Stood config candidate next)
    (represents : Represents peers ledger candidate (config.nodes candidate))
    (log : (config.nodes candidate).state.log = ⟨sentinel :: own⟩) :
    Stands peers config candidate own next := by
  rcases stood with ⟨timeout, after, actions, started, moved⟩
  have majority := represents.majorityCount_eq
  have here := moved.self
  have others : forall id, id ≠ candidate -> next.nodes id = config.nodes id :=
    fun id different => moved.rest different
  rcases startElection_eq_ok.mp started with ⟨_, result⟩
  split at result
  · next won =>
      cases result
      refine ⟨by rw [here]; rfl, by rw [here]; exact log, others, Or.inl ⟨?_, by rw [here]; rfl⟩⟩
      change 1 ≥ (config.nodes candidate).state.majorityCount at won
      omega
  · next missing =>
    cases result
    change ¬ 1 ≥ (config.nodes candidate).state.majorityCount at missing
    refine ⟨by rw [here]; rfl, by rw [here]; exact log, others,
      Or.inr ⟨by omega, by rw [here]; rfl, ?_, ?_⟩⟩
    · rw [here]
      change {(config.nodes candidate).state.id} = ({candidate} : Finset Nat)
      rw [represents.id_eq]
    · intro id member different
      rw [← askFor_eq log]
      have listed := represents.mem_otherPeers member different
      refine moved.sends _ (List.mem_map.mpr ⟨id, listed, rfl⟩) _ ?_
      change some (Packet.mk id
        (.requestVote candidate ⟨_, (config.nodes candidate).state.id, _, _⟩)) = _
      rw [represents.id_eq]
      rfl

/-- A node can leave the terms of the others behind and ask for their votes, unless it
has won alone. -/
theorem Run.can_campaign (distinct : peers.Nodup) (run : Run peers history config)
    (since : old ≤ config.network.length) (within : team ⊆ peers) (member : candidate ∈ team)
    (among : forall id, id ∈ quorum -> id ∈ team ∧ id ≠ candidate)
    (size : quorum.length = peers.length / 2)
    (follows : (config.nodes candidate).state.role ≠ .leader)
    (log : (config.nodes candidate).state.log = ⟨sentinel :: own⟩)
    (bound : (config.nodes candidate).state.currentTerm ≤ high) (room : high + 1 < wordSize)
    (backs : forall id, id ∈ quorum -> Backs config high own id) :
    (system peers).CanReach (Undertakes candidate team old) history
      (fun next => Leads candidate own quorum next ∨
      (quorum ≠ [] ∧ Campaigns old candidate (high + 1) own [] quorum next)) := by
  -- by induction on the terms between the candidate's and those of the others
  induction gap : high - (config.nodes candidate).state.currentTerm using Nat.strong_induction_on
    generalizing history config with
  | _ gap inductionHypothesis =>
      rcases run.traces distinct with ⟨ledger, traces⟩
      refine run.can_go_on since (Run.can_stand run within member follows (by omega)) ?_
      intro longer middle continued later stood
      rcases stood.stands (traces.simulates.nodes candidate (within member)) log with
        ⟨current, kept, others, outcome⟩
      have still : forall id, id ∈ quorum -> Backs middle high own id := by
        intro id listed
        rcases backs id listed with ⟨behind, part⟩
        rw [← others id (among id listed).2] at behind part
        exact ⟨behind, part⟩
      rcases outcome with ⟨alone, leads⟩ | ⟨crowd, role, votes, asks⟩
      · refine .here continued (Or.inl ⟨leads, kept, fun id listed => ?_⟩)
        rw [List.eq_nil_of_length_eq_zero (size.trans alone)] at listed
        exact (List.not_mem_nil listed).elim
      · by_cases reached : (config.nodes candidate).state.currentTerm = high
        · rw [reached] at current asks
          have needed : quorum ≠ [] := by
            rintro rfl
            exact crowd size.symm
          refine .here continued (Or.inr ⟨needed, role, current, kept, votes, ?_, ?_, ?_⟩)
          · exact fun id listed => List.drop_subset_drop_left _ since
              (asks id (within (among id listed).1) (among id listed).2)
          · exact fun id listed => Nat.lt_succ_of_le (still id listed).behind
          · exact fun id listed => (still id listed).mono (Nat.le_succ _) List.prefix_rfl
        · have candidacy : (middle.nodes candidate).state.role ≠ .leader := by
            rw [role]
            rintro ⟨⟩
          exact inductionHypothesis _ (by omega) continued later candidacy kept (by omega) still rfl

/-! ## Being elected -/

/-- A log does not stand against a candidate that has all of it. -/
theorem candidateUpToDate_of_isPrefix {log : RaftLog} {body : List LogEntry}
    (holds : log = ⟨sentinel :: body⟩) (ordered : Ordered LogEntry.term own)
    (begins : body <+: own) : candidateUpToDate log (askFor candidate term own) = true := by
  have ownTerm : log.lastTerm = lastTerm LogEntry.term body := by
    rw [holds, RaftLog.lastTerm_eq_body (RaftLog.hasSentinel_mk _), RaftLog.body_mk]
    rfl
  have ownIndex : log.lastIndex = body.length := by
    rw [RaftLog.lastIndex_eq_length_body, holds, RaftLog.body_mk]
  simp only [candidateUpToDate, askFor, ownTerm, ownIndex, Bool.or_eq_true, Bool.and_eq_true,
    decide_eq_true_eq]
  rcases ordered.upToDate begins with later | ⟨same, longer⟩
  · exact Or.inl later
  · exact Or.inr ⟨same.symm, longer⟩

/-- Who is asked in a term beyond its own by such a candidate, votes for it. -/
theorem handleRequestVote_of_free {voter : RaftNode} (free : voter.state.currentTerm < term)
    (upToDate : candidateUpToDate voter.state.log (askFor candidate term own) = true) :
    voter.handleRequestVote (askFor candidate term own) =
      ((voter.raiseTerm term).castVote candidate,
        [.sendRequestVoteResponse candidate ⟨term, true⟩]) := by
  have unbound : canVote (voter.raiseTerm term).state.votedFor candidate = true := by
    rw [raiseTerm, if_pos free]
    change canVote (voter.state.becomeFollower term).votedFor candidate = true
    rw [RaftState.becomeFollower_votedFor, if_pos free]
    rfl
  rcases voter.handleRequestVote_cases (askFor candidate term own) with
    ⟨stale, _⟩ | ⟨_, _, _, equal⟩ | ⟨_, refused, _⟩
  · exact absurd free (Nat.lt_asymm stale)
  · exact equal
  · rw [upToDate, Bool.and_true] at refused
    exact absurd (unbound.symm.trans refused) (by decide)

/-- A vote that comes in time is counted. -/
theorem handleRequestVoteResponse_of_granted (sender : Nat)
    (stands : node.state.role = .candidate) :
    node.handleRequestVoteResponse sender ⟨node.state.currentTerm, true⟩ =
      if (insert sender node.votesReceived).card ≥ node.state.majorityCount then
        ({ node with votesReceived := insert sender node.votesReceived } : RaftNode).winElection
      else ({ node with votesReceived := insert sender node.votesReceived }, []) := by
  rw [handleRequestVoteResponse, if_neg (not_not.mpr stands), if_neg (Nat.lt_irrefl _),
    if_neg (not_not.mpr rfl)]
  rfl

/-- One of the nodes that the candidate has asked has voted for it. -/
structure Voted (config : Configuration) (old candidate term : Nat) (own : List LogEntry)
    (voter : Nat) (next : Configuration) : Prop where
  others : forall id, id ≠ voter -> next.nodes id = config.nodes id
  keeps : config.network <+: next.network
  replied : ⟨candidate, .requestVoteResponse voter ⟨term, true⟩⟩ ∈ next.network.drop old
  backs : Backs next term own voter

theorem Run.can_vote (distinct : peers.Nodup) (run : Run peers history config)
    (since : old ≤ config.network.length) {voter : Nat}
    (within : team ⊆ peers) (member : candidate ∈ team) (voterMember : voter ∈ team)
    (campaigns : Campaigns old candidate term own asked (voter :: rest) config) :
    (system peers).CanReach (Undertakes candidate team old) history
      (Voted config old candidate term own voter) := by
  rcases run.traces distinct with ⟨ledger, traces⟩
  have ordered : Ordered LogEntry.term own := by
    have logs := campaigns.log.symm.trans (traces.simulates.nodes candidate (within member)).log_eq
    cases logs
    exact traces.sound.ordered_of_rooted (traces.sound.log_rooted candidate)
  have holds := (traces.simulates.nodes voter (within voterMember)).log_eq
  have backed := campaigns.backs voter (List.mem_append_right _ List.mem_cons_self)
  have part := backed.part
  rw [holds, RaftLog.body_mk] at part
  have upToDate : candidateUpToDate (config.nodes voter).state.log (askFor candidate term own) =
      true := candidateUpToDate_of_isPrefix holds ordered part
  have granted := handleRequestVote_of_free (campaigns.free voter List.mem_cons_self) upToDate
  refine (Run.can_deliver run within voterMember (campaigns.asks voter List.mem_cons_self)
    (congrArg Except.ok granted)).mono ?_
  intro next moved
  refine ⟨fun id different => moved.rest different, moved.keeps,
    moved.sent since (List.mem_singleton.mpr rfl) rfl, ?_, ?_⟩ <;> rw [moved.self]
  · exact Nat.le_of_eq (raiseTerm_currentTerm backed.behind)
  · change ((config.nodes voter).raiseTerm term).state.log.body <+: own
    rw [raiseTerm_log]
    exact backed.part

/-- The votes of a candidate and one more. -/
theorem card_insert_votes {voter : Nat} (apart : (candidate :: (asked ++ voter :: rest)).Nodup) :
    (insert voter (insert candidate asked.toFinset)).card = asked.length + 2 := by
  have voters : (voter :: candidate :: asked).Nodup := by
    have front := (List.Perm.cons candidate List.perm_middle).nodup_iff.mp apart
    have swapped := (List.Perm.swap voter candidate (asked ++ rest)).nodup_iff.mp front
    exact List.Nodup.sublist
      (((List.sublist_append_left asked rest).cons_cons candidate).cons_cons voter) swapped
  rw [← List.toFinset_cons, ← List.toFinset_cons, List.toFinset_card_of_nodup voters]
  rfl

/-- What the candidate does with a vote takes nothing from its backing. -/
theorem Voted.keeps_backing {voter id : Nat} {after : RaftNode} {actions : List Action}
    {final : Configuration} (voted : Voted config old candidate term own voter next)
    (campaigns : Campaigns old candidate term own asked (voter :: rest) config)
    (moved : Moved next candidate after actions final) (other : id ≠ candidate)
    (listed : id ∈ asked ++ voter :: rest) : Backs final term own id := by
  refine Backs.moved ?_ moved other
  by_cases same : id = voter
  · rw [same]
    exact voted.backs
  · rcases campaigns.backs id listed with ⟨behind, part⟩
    rw [← voted.others id same] at behind part
    exact ⟨behind, part⟩

/-- With one vote more, the candidate goes on. -/
theorem Voted.goes_on {voter : Nat} {actions : List Action} {final : Configuration}
    (voted : Voted config old candidate term own voter next)
    (apart : (candidate :: (asked ++ voter :: rest)).Nodup)
    (campaigns : Campaigns old candidate term own asked (voter :: rest) config)
    (moved : Moved next candidate { config.nodes candidate with
      votesReceived := insert voter (insert candidate asked.toFinset) } actions final) :
    Campaigns old candidate term own (voter :: asked) rest final := by
  have others : forall id, id ∈ asked ++ voter :: rest -> id ≠ candidate := by
    rintro id listed rfl
    exact (List.nodup_cons.mp apart).1 listed
  have here := moved.self
  refine ⟨?_, ?_, ?_, ?_, ?_, ?_, ?_⟩
  · rw [here]
    exact campaigns.role
  · rw [here]
    exact campaigns.current
  · rw [here]
    exact campaigns.log
  · rw [here, List.toFinset_cons]
    exact Finset.insert_comm _ _ _
  · intro id listed
    exact ((voted.keeps.trans moved.keeps).drop old).subset
      (campaigns.asks id (List.mem_cons_of_mem _ listed))
  · intro id listed
    have waiting : id ∈ voter :: rest := List.mem_cons_of_mem _ listed
    have unasked : id ≠ voter := by
      rintro rfl
      have behind := (List.nodup_cons.mp apart).2.sublist (List.sublist_append_right _ _)
      exact (List.nodup_cons.mp behind).1 listed
    have stays : final.nodes id = config.nodes id :=
      (moved.rest (others id (List.mem_append_right _ waiting))).trans (voted.others id unasked)
    rw [stays]
    exact campaigns.free id waiting
  · intro id listed
    have among := List.perm_middle.mem_iff.mpr listed
    exact voted.keeps_backing campaigns moved (others id among) among

/-- The candidate takes a vote in, and leads if it needs no more. -/
theorem Run.can_count (distinct : peers.Nodup) (run : Run peers history next) {voter : Nat}
    (within : team ⊆ peers) (member : candidate ∈ team)
    (apart : (candidate :: (asked ++ voter :: rest)).Nodup)
    (size : (asked ++ voter :: rest).length = peers.length / 2)
    (campaigns : Campaigns old candidate term own asked (voter :: rest) config)
    (voted : Voted config old candidate term own voter next) :
    (system peers).CanReach (Undertakes candidate team old) history (fun final =>
      (rest = [] ∧ Leads candidate own (asked ++ voter :: rest) final) ∨
      (rest ≠ [] ∧ Campaigns old candidate term own (voter :: asked) rest final)) := by
  rcases run.traces distinct with ⟨ledger, traces⟩
  have others : forall id, id ∈ asked ++ voter :: rest -> id ≠ candidate := by
    rintro id listed rfl
    exact (List.nodup_cons.mp apart).1 listed
  have unmoved : next.nodes candidate = config.nodes candidate :=
    voted.others candidate (others voter (List.mem_append_right _ List.mem_cons_self)).symm
  have represents := traces.simulates.nodes candidate (within member)
  rw [unmoved] at represents
  have counted := handleRequestVoteResponse_of_granted voter campaigns.role
  rw [campaigns.current, campaigns.votes, card_insert_votes apart, represents.majorityCount_eq,
    ← unmoved] at counted
  have count : asked.length + (rest.length + 1) = peers.length / 2 := by
    rw [← size, List.length_append, List.length_cons]
  cases rest with
  | nil =>
      have enough : asked.length + 2 ≥ peers.length / 2 + 1 := by
        rw [← count]
        exact Nat.le_refl _
      rw [if_pos enough] at counted
      refine (Run.can_deliver run within member voted.replied (congrArg Except.ok counted)).mono ?_
      intro final moved
      refine Or.inl ⟨rfl, ?_, ?_, ?_⟩ <;> rw [moved.self, unmoved]
      · rfl
      · exact campaigns.log
      · change forall id, id ∈ _ -> Backs final (config.nodes candidate).state.currentTerm own id
        rw [campaigns.current]
        exact fun id listed => voted.keeps_backing campaigns moved (others id listed) listed
  | cons following rest =>
      have missing : ¬ asked.length + 2 ≥ peers.length / 2 + 1 := by
        rw [← count, List.length_cons]
        omega
      rw [if_neg missing] at counted
      refine (Run.can_deliver run within member voted.replied (congrArg Except.ok counted)).mono ?_
      intro final moved
      rw [unmoved] at moved
      exact Or.inr ⟨List.cons_ne_nil _ _, voted.goes_on apart campaigns moved⟩

/-- A candidate gets the votes of those it has asked, one after the other, until it
leads. -/
theorem Run.can_win (distinct : peers.Nodup) (run : Run peers history config)
    (since : old ≤ config.network.length) (within : team ⊆ peers) (member : candidate ∈ team)
    (among : forall id, id ∈ asked ++ rest -> id ∈ team)
    (apart : (candidate :: (asked ++ rest)).Nodup)
    (size : (asked ++ rest).length = peers.length / 2) (missing : rest ≠ [])
    (campaigns : Campaigns old candidate term own asked rest config) :
    (system peers).CanReach (Undertakes candidate team old) history
      (Leads candidate own (asked ++ rest)) := by
  induction rest generalizing asked history config with
  | nil => exact absurd rfl missing
  | cons voter rest inductionHypothesis =>
      have voterMember := among voter (List.mem_append_right _ List.mem_cons_self)
      refine run.can_go_on since
        (Run.can_vote distinct run since within member voterMember campaigns) ?_
      intro longer next continued later voted
      refine continued.can_go_on later
        (Run.can_count distinct continued within member apart size campaigns voted) ?_
      rintro longest final ended latest (⟨_, leads⟩ | ⟨missing, further⟩)
      · exact .here ended leads
      · have same : (voter :: asked ++ rest).Perm (asked ++ voter :: rest) := List.perm_middle.symm
        refine (inductionHypothesis ended latest (fun id listed => among id (same.mem_iff.mp listed))
          ((same.cons candidate).nodup_iff.mpr apart) (same.length_eq.trans size) missing
          further).mono ?_
        rintro last ⟨role, log, backs⟩
        exact ⟨role, log, fun id listed => backs id (same.mem_iff.mpr listed)⟩

/-! ## Leading -/

/-- A leader can learn of a later term, and gives way to it. -/
theorem Run.can_yield (distinct : peers.Nodup) (run : Run peers history config)
    (since : old ≤ config.network.length) (within : team ⊆ peers) (member : candidate ∈ team)
    (idMember : id ∈ team)
    (different : id ≠ candidate)
    (leads : (config.nodes candidate).state.role = .leader)
    (later : (config.nodes candidate).state.currentTerm < (config.nodes id).state.currentTerm) :
    (system peers).CanReach (Undertakes candidate team old) history (fun next =>
      next.nodes candidate =
        (rested (config.nodes candidate)).stepDown (config.nodes id).state.currentTerm ∧
      forall other, other ≠ candidate -> next.nodes other = config.nodes other) := by
  rcases run.traces distinct with ⟨ledger, traces⟩
  have represents := traces.simulates.nodes candidate (within member)
  have listed := represents.mem_otherPeers (within idMember) different
  rcases Run.greeting run leads listed with ⟨probe, greets⟩
  refine run.can_go_on since (Run.can_greet run within member leads) ?_
  intro longer middle continued begun greeted
  -- the other node refuses the request
  have sent := greeted.sent since greets rfl
  have unmoved : middle.nodes id = config.nodes id := greeted.rest different
  have refused : (middle.nodes id).handleAppendEntries (requestAt (config.nodes candidate) probe) =
      .ok (middle.nodes id, [.sendAppendEntriesResponse (config.nodes candidate).state.id
        ⟨(middle.nodes id).state.currentTerm, false, none⟩]) := by
    rw [unmoved]
    exact if_pos later
  refine (Run.can_deliver continued within idMember sent refused).trans ?_
  intro longest third refusing answered
  have reply := answered.sent begun (List.mem_singleton.mpr rfl) rfl
  rw [represents.id_eq, unmoved] at reply
  have same : third.nodes candidate = rested (config.nodes candidate) := by
    rw [answered.rest different.symm, greeted.self]
  -- the leader takes the answer in
  have yields : (third.nodes candidate).handleAppendEntriesResponse id
      ⟨(config.nodes id).state.currentTerm, false, none⟩ =
        .ok ((third.nodes candidate).stepDown (config.nodes id).state.currentTerm, []) := by
    rw [same]
    exact (if_neg (not_not.mpr leads)).trans (if_pos later)
  refine (Run.can_deliver refusing within member reply yields).mono ?_
  intro next moved
  refine ⟨by rw [moved.self, same], fun other apart => ?_⟩
  rw [moved.rest apart]
  by_cases here : other = id
  · rw [here, answered.self, unmoved]
  · rw [answered.rest here, greeted.rest apart]

/-- Among the terms of some nodes there is a highest one. -/
theorem exists_high (config : Configuration) (candidate : Nat) (quorum : List Nat) :
    Exists fun highest => highest ∈ candidate :: quorum ∧ forall id, id ∈ candidate :: quorum ->
      (config.nodes id).state.currentTerm ≤ (config.nodes highest).state.currentTerm := by
  have some : (candidate :: quorum).toFinset.Nonempty :=
    ⟨candidate, List.mem_toFinset.mpr List.mem_cons_self⟩
  rcases Finset.exists_max_image _ (fun id => (config.nodes id).state.currentTerm) some with
    ⟨highest, member, bound⟩
  exact ⟨highest, List.mem_toFinset.mp member,
    fun id listed => bound id (List.mem_toFinset.mpr listed)⟩

/-- A node that does not lead can become the leader. -/
theorem Run.can_be_elected (distinct : peers.Nodup) (run : Run peers history config)
    (since : old ≤ config.network.length) (within : team ⊆ peers) (member : candidate ∈ team)
    (among : forall id, id ∈ quorum -> id ∈ team)
    (apart : (candidate :: quorum).Nodup) (size : quorum.length = peers.length / 2)
    (follows : (config.nodes candidate).state.role ≠ .leader)
    (log : (config.nodes candidate).state.log = ⟨sentinel :: own⟩)
    (bound : (config.nodes candidate).state.currentTerm ≤ high) (room : high + 1 < wordSize)
    (backs : forall id, id ∈ quorum -> Backs config high own id) :
    (system peers).CanReach (Undertakes candidate team old) history
      (Leads candidate own quorum) := by
  have different : forall id, id ∈ quorum -> id ≠ candidate := by
    rintro id listed rfl
    exact (List.nodup_cons.mp apart).1 listed
  refine run.can_go_on since (Run.can_campaign distinct run since within member
    (fun id listed => ⟨among id listed, different id listed⟩) size follows log bound room backs) ?_
  rintro longer middle continued later (leads | ⟨needed, campaigns⟩)
  · exact .here continued leads
  · exact Run.can_win distinct continued later within member among (List.nil_append quorum ▸ apart)
      (List.nil_append quorum ▸ size) needed campaigns

/-- A node can lead if the others of a majority have no more than a part of its log. -/
theorem Run.can_lead (distinct : peers.Nodup) (run : Run peers history config)
    (since : old ≤ config.network.length) (within : team ⊆ peers) (member : candidate ∈ team)
    (among : forall id, id ∈ quorum -> id ∈ team)
    (apart : (candidate :: quorum).Nodup) (size : quorum.length = peers.length / 2)
    (log : (config.nodes candidate).state.log = ⟨sentinel :: own⟩)
    (room : forall id, id ∈ candidate :: quorum ->
      (config.nodes id).state.currentTerm + 1 < wordSize)
    (parts : forall id, id ∈ quorum -> (config.nodes id).state.log.body <+: own) :
    (system peers).CanReach (Undertakes candidate team old) history
      (Leads candidate own quorum) := by
  rcases exists_high config candidate quorum with ⟨highest, listed, bound⟩
  have backs : forall id, id ∈ quorum ->
      Backs config (config.nodes highest).state.currentTerm own id :=
    fun id backing => ⟨bound id (List.mem_cons_of_mem _ backing), parts id backing⟩
  by_cases leads : (config.nodes candidate).state.role = .leader
  · by_cases later : Exists fun id => id ∈ quorum ∧
        (config.nodes candidate).state.currentTerm < (config.nodes id).state.currentTerm
    · rcases later with ⟨id, backing, later⟩
      have different : forall other, other ∈ quorum -> other ≠ candidate := by
        rintro other backing rfl
        exact (List.nodup_cons.mp apart).1 backing
      refine run.can_go_on since (Run.can_yield distinct run since within member (among id backing)
        (different id backing) leads later) ?_
      rintro longer next continued begun ⟨here, others⟩
      refine Run.can_be_elected distinct continued begun within member among apart size ?_ ?_ ?_
        (room highest listed) ?_
      · rw [here]
        simp
      · rw [here]
        simpa [rested] using log
      · rw [here]
        simpa [rested] using ⟨bound candidate List.mem_cons_self,
          bound id (List.mem_cons_of_mem _ backing)⟩
      · intro other backing
        rcases backs other backing with ⟨behind, part⟩
        rw [← others other (different other backing)] at behind part
        exact ⟨behind, part⟩
    · refine .here run ⟨leads, log, fun id backing => ⟨?_, parts id backing⟩⟩
      exact Nat.le_of_not_lt fun less => later ⟨id, backing, less⟩
  · exact Run.can_be_elected distinct run since within member among apart size leads log
      (bound candidate List.mem_cons_self) (room highest listed) backs

end Elections
end Cluster
end RaftStore
