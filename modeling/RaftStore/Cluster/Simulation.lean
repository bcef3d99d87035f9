import RaftStore.Cluster.Run
import RaftStore.Raft.Handlers
import RaftStore.Consensus.Safety

namespace RaftStore
namespace Cluster

open Raft Consensus Systems

/-!
# The cluster refines the ledger

Each node of a cluster is represented by its row of the ledger, and each packet
on the network by a fact that the ledger has recorded.  A handler of a node
corresponds to steps of that node in the ledger: stepping up to a later term,
standing for election, voting, being elected, adding an entry as leader, and
accepting what the leader issued.

The relation says nothing about commit indices or about `match_index`.  It holds
in every run, whatever the followers report and whatever the leader believes of
them, and it suffices for election safety, log matching and leader completeness.
-/

/-- The invariant of the ledger for the given peers and the terms of log
entries. -/
abbrev SoundFor (peers : List Nat) (ledger : Ledger Nat LogEntry) : Prop :=
  Sound peers.toFinset LogEntry.term ledger

/-- Steps of one node in the ledger. -/
abbrev StepsOf (peers : List Nat) (id : Nat) :
    Ledger Nat LogEntry -> Ledger Nat LogEntry -> Prop :=
  Steps peers.toFinset LogEntry.term id

/-- A node is what its row of the ledger says. -/
structure Represents (peers : List Nat) (ledger : Ledger Nat LogEntry) (id : Nat)
    (node : RaftNode) : Prop where
  id_eq : node.state.id = id
  peers_eq : node.state.peers = peers
  term_eq : node.state.currentTerm = ledger.term id
  vote_eq : node.state.votedFor = ledger.ballot id (ledger.term id)
  log_eq : node.state.log = ⟨sentinel :: ledger.log id⟩
  fits : node.state.log.entries.length ≤ vecCapacity
  saved : node.Saved
  leads : node.state.role = .leader ->
    Exists fun r => ledger.reign (ledger.term id) = some r ∧ r.leader = id
  stands : node.state.role = .candidate ->
    ledger.stand id (ledger.term id) = some (ledger.log id) ∧
    (forall r, ledger.reign (ledger.term id) = some r -> r.leader ≠ id) ∧
    forall voter, voter ∈ node.votesReceived ->
      voter ∈ peers ∧ ledger.ballot voter (ledger.term id) = some id
  next_pos : forall pair, pair ∈ node.state.nextIndex -> 0 < pair.2
  next_keys : node.state.role = .leader ->
    node.state.nextIndex.map Prod.fst = node.state.otherPeers

/-- A replication request is cut from the leader's log, or it is an empty probe
beyond the end of that log. -/
def Issued (r : Reign Nat LogEntry) (request : AppendEntriesRequest) : Prop :=
  (Exists fun base => base ++ request.entries <+: r.log ∧ base.length = request.prevLogIndex ∧
    request.prevLogTerm = lastTerm LogEntry.term base) ∨
  (request.entries = [] ∧ request.prevLogTerm = 0 ∧ 0 < request.prevLogIndex)

/-- The fact of the ledger that a packet was sent upon. -/
def Justified (peers : List Nat) (ledger : Ledger Nat LogEntry) (packet : Packet) : Prop :=
  match packet.message with
  | .requestVote sender request => request.candidateId = sender ∧ Exists fun platform =>
      ledger.stand sender request.term = some platform ∧
        request.lastLogIndex = platform.length ∧
        request.lastLogTerm = lastTerm LogEntry.term platform
  | .requestVoteResponse sender response => sender ∈ peers ∧
      (response.voteGranted = true -> ledger.ballot sender response.term = some packet.recipient)
  | .appendEntries sender request => request.leaderId = sender ∧ Exists fun r =>
      ledger.reign request.term = some r ∧ r.leader = sender ∧ Issued r request
  | .appendEntriesResponse sender _ => sender ∈ peers

/-- A configuration is represented by a ledger. -/
structure Simulates (peers : List Nat) (config : Configuration) (ledger : Ledger Nat LogEntry) :
    Prop where
  nodes : forall id, id ∈ peers -> Represents peers ledger id (config.nodes id)
  packets : forall packet, packet ∈ config.network -> Justified peers ledger packet
  recorded : Recorded ledger

/-- The outcome of a handler is represented after some steps of its node. -/
def Refines (peers : List Nat) (ledger : Ledger Nat LogEntry) (id : Nat) (after : RaftNode)
    (actions : List Action) : Prop :=
  Exists fun later => StepsOf peers id ledger later ∧ Represents peers later id after ∧
    forall action, action ∈ actions -> forall packet, packetOf id action = some packet ->
      Justified peers later packet

/-! ## Logs and their terms -/

/-- Two rooted logs of the same length and the same last term are equal. -/
theorem eq_of_lastTerm {reign : Nat -> Option (Reign Nat LogEntry)} {left right : List LogEntry}
    (first : Rooted LogEntry.term reign left) (second : Rooted LogEntry.term reign right)
    (sameLength : left.length = right.length)
    (sameTerm : lastTerm LogEntry.term left = lastTerm LogEntry.term right) : left = right := by
  rcases eq_nil_or_endsIn LogEntry.term left with empty | ⟨init, entry, leftEq, leftTerm⟩
  · rw [empty] at sameLength ⊢
    exact (List.length_eq_zero_iff.mp sameLength.symm).symm
  · rcases eq_nil_or_endsIn LogEntry.term right with
      empty | ⟨init', entry', rightEq, rightTerm⟩
    · rw [empty, leftEq] at sameLength
      simp at sameLength
    · rw [leftEq, rightEq]
      apply first.matching second (by rw [leftEq]) (by rw [rightEq])
      · simpa [leftEq, rightEq] using sameLength
      · rw [leftTerm, rightTerm, sameTerm]

/-- Where two logs over a common base have matching terms they are equal, if
both are rooted. -/
theorem take_matchingTerms {reign : Nat -> Option (Reign Nat LogEntry)}
    {base tail entries : List LogEntry} (first : Rooted LogEntry.term reign (base ++ tail))
    (second : Rooted LogEntry.term reign (base ++ entries)) :
    tail.take (matchingTerms entries tail) = entries.take (matchingTerms entries tail) := by
  induction entries generalizing base tail with
  | nil => simp [matchingTerms]
  | cons entry entries inductionHypothesis =>
      cases tail with
      | nil => simp [matchingTerms]
      | cons head tail =>
          by_cases same : head.term = entry.term
          · have equal : base ++ [head] = base ++ [entry] :=
              first.matching second ⟨tail, by simp⟩ ⟨entries, by simp⟩ rfl same
            have sameEntry : head = entry := by simpa using equal
            subst sameEntry
            simp only [matchingTerms, if_true, List.take_succ_cons]
            have shifted : Rooted LogEntry.term reign ((base ++ [head]) ++ tail) := by
              simpa using first
            rw [inductionHypothesis shifted (by simpa using second)]
          · simp [matchingTerms, same]

/-- Splicing in what the leader issued is the overlay of the ledger. -/
theorem splice_eq_overlay {reign : Nat -> Option (Reign Nat LogEntry)}
    {log base entries : List LogEntry} (first : Rooted LogEntry.term reign log)
    (second : Rooted LogEntry.term reign (base ++ entries))
    (begins : log.take base.length = base) :
    splice log base.length entries = overlay (base ++ entries) log := by
  have parts : log = base ++ log.drop base.length := by
    rw [← List.take_append_drop base.length log, begins]
    simp
  generalize log.drop base.length = tail at parts
  subst parts
  have equal := take_matchingTerms first second
  have bound := matchingTerms_le_left entries tail
  simp only [splice, List.drop_left]
  by_cases unfinished : matchingTerms entries tail < entries.length
  · rw [if_pos unfinished, List.take_length_add_append, equal, List.append_assoc,
      List.take_append_drop, overlay, if_neg]
    -- the entry after the match differs, so the log does not extend the issued one
    intro extended
    have tails : entries <+: tail := (List.prefix_append_right_inj base).mp extended
    have after := (matchingTerms_spec entries tail).2 unfinished
    rw [(List.prefix_iff_getElem?.mp tails) _ unfinished] at after
    simp [unfinished] at after
  · have all : matchingTerms entries tail = entries.length := by omega
    rw [if_neg unfinished, overlay, if_pos]
    rw [all, List.take_length] at equal
    rw [List.prefix_append_right_inj, ← equal]
    exact List.take_prefix _ _

/-! ## Frames: what other nodes do not touch -/

section Frames

variable {peers : List Nat} {ledger later : Ledger Nat LogEntry} {actor id : Nat}

/-- A node is represented as before when another one moves. -/
theorem Represents.frame {node : RaftNode} (represents : Represents peers ledger id node)
    (moves : Moves actor ledger later) (different : id ≠ actor) :
    Represents peers later id node where
  id_eq := represents.id_eq
  peers_eq := represents.peers_eq
  term_eq := represents.term_eq.trans (moves.term_eq different).symm
  vote_eq := by
    rw [moves.ballot_eq different, moves.term_eq different]
    exact represents.vote_eq
  log_eq := by
    rw [moves.log_eq different]
    exact represents.log_eq
  fits := represents.fits
  saved := represents.saved
  leads role := by
    rcases represents.leads role with ⟨r, found, own⟩
    rcases moves.reign found with ⟨r', found', leader, _⟩
    rw [moves.term_eq different]
    exact ⟨r', found', leader.trans own⟩
  stands role := by
    rcases represents.stands role with ⟨standing, vacant, votes⟩
    rw [moves.term_eq different, moves.log_eq different]
    refine ⟨moves.stand standing, ?_, ?_⟩
    · intro r found own
      exact vacant r (moves.origin found (by rw [own]; exact different)) own
    · intro voter member
      exact ⟨(votes voter member).1, moves.ballot (votes voter member).2⟩
  next_pos := represents.next_pos
  next_keys := represents.next_keys

theorem Issued.mono {r r' : Reign Nat LogEntry} {request : AppendEntriesRequest}
    (issued : Issued r request) (grown : r.log <+: r'.log) : Issued r' request := by
  rcases issued with ⟨base, cut, length, term⟩ | probe
  · exact Or.inl ⟨base, cut.trans grown, length, term⟩
  · exact Or.inr probe

/-- What justified a packet once justifies it forever. -/
theorem Justified.mono {packet : Packet} (justified : Justified peers ledger packet)
    (moves : Moves actor ledger later) : Justified peers later packet := by
  rcases packet with ⟨recipient, message⟩
  cases message with
  | requestVote sender request =>
      rcases justified with ⟨same, platform, standing, rest⟩
      exact ⟨same, platform, moves.stand standing, rest⟩
  | requestVoteResponse sender response =>
      rcases justified with ⟨member, granted⟩
      exact ⟨member, fun yes => moves.ballot (granted yes)⟩
  | appendEntries sender request =>
      rcases justified with ⟨same, r, found, leader, issued⟩
      rcases moves.reign found with ⟨r', found', leader', _, grown⟩
      exact ⟨same, r', found', leader'.trans leader, issued.mono grown⟩
  | appendEntriesResponse sender response => exact justified

/-- A handler that takes no step of the ledger and changes none of the fields
the ledger speaks of. -/
theorem Represents.congr {node other : RaftNode} (represents : Represents peers ledger id node)
    (sameId : other.state.id = node.state.id) (samePeers : other.state.peers = node.state.peers)
    (sameTerm : other.state.currentTerm = node.state.currentTerm)
    (sameVote : other.state.votedFor = node.state.votedFor)
    (sameLog : other.state.log = node.state.log) (sameRole : other.state.role = node.state.role)
    (sameVotes : other.votesReceived = node.votesReceived)
    (samePersister : other.persister = node.persister)
    (positive : forall pair, pair ∈ other.state.nextIndex -> 0 < pair.2)
    (sameKeys : other.state.nextIndex.map Prod.fst = node.state.nextIndex.map Prod.fst) :
    Represents peers ledger id other where
  id_eq := sameId.trans represents.id_eq
  peers_eq := samePeers.trans represents.peers_eq
  term_eq := sameTerm.trans represents.term_eq
  vote_eq := sameVote.trans represents.vote_eq
  log_eq := sameLog.trans represents.log_eq
  fits := by
    rw [sameLog]
    exact represents.fits
  saved := represents.saved.congr samePersister (by
    simp only [RaftNode.persistentState, sameTerm, sameVote, sameLog])
  leads role := represents.leads (sameRole.symm.trans role)
  stands role := by
    rw [sameVotes]
    exact represents.stands (sameRole.symm.trans role)
  next_pos := positive
  next_keys role := by
    rw [sameKeys, represents.next_keys (sameRole.symm.trans role), RaftState.otherPeers,
      RaftState.otherPeers, sameId, samePeers]

/-- Advancing the commit index is invisible to the ledger. -/
theorem Represents.withCommit {node : RaftNode} (represents : Represents peers ledger id node)
    (lastApplied commitIndex : Nat) :
    Represents peers ledger id (node.withCommit lastApplied commitIndex) :=
  represents.congr rfl rfl rfl rfl rfl rfl rfl rfl represents.next_pos rfl

end Frames

/-! ## The steps of one node -/

section Steps

variable {peers : List Nat} {ledger : Ledger Nat LogEntry} {id : Nat} {node : RaftNode}

/-- Becoming a follower of a term that is not older than the own one. -/
theorem Represents.follow (represents : Represents peers ledger id node)
    (sound : SoundFor peers ledger) {term : Nat} (current : node.state.currentTerm ≤ term)
    (after : RaftNode) (saved : after.Saved)
    (becomes : after.state = { node.state.becomeFollower term with leaderId := after.state.leaderId }) :
    Exists fun later => StepsOf peers id ledger later ∧ Represents peers later id after ∧
      later.term id = term ∧ later.log = ledger.log ∧ later.reign = ledger.reign ∧
      later.stand = ledger.stand ∧ later.ballot = ledger.ballot := by
  have nextEmpty : after.state.nextIndex = [] := by rw [becomes]; rfl
  have role : after.state.role = .follower := by rw [becomes]; simp
  have log : after.state.log = node.state.log := by rw [becomes]; simp
  have newTerm : after.state.currentTerm = term := by rw [becomes]; simpa using current
  have build : forall {later : Ledger Nat LogEntry}, later.term id = term ->
      later.log = ledger.log -> after.state.votedFor = later.ballot id term ->
      Represents peers later id after := by
    intro later sameTerm sameLog sameVote
    exact {
      id_eq := by rw [becomes]; simpa using represents.id_eq
      peers_eq := by rw [becomes]; simpa using represents.peers_eq
      term_eq := newTerm.trans sameTerm.symm
      vote_eq := by rw [sameTerm]; exact sameVote
      log_eq := by rw [log, sameLog]; exact represents.log_eq
      fits := by rw [log]; exact represents.fits
      saved := saved
      leads := fun leader => by rw [role] at leader; cases leader
      stands := fun candidate => by rw [role] at candidate; cases candidate
      next_pos := fun pair member => by rw [nextEmpty] at member; cases member
      next_keys := fun leader => by rw [role] at leader; cases leader }
  rcases Nat.lt_or_eq_of_le current with higher | same
  · -- a later term: no ballot has been cast in it
    have free : ledger.ballot id term = none := by
      cases cast : ledger.ballot id term with
      | none => rfl
      | some candidate =>
          have reached := sound.ballot_le cast
          rw [← represents.term_eq] at reached
          omega
    refine ⟨_, .single (.advance term (by rw [← represents.term_eq]; exact higher)),
      build (Function.update_self _ _ _) rfl ?_, Function.update_self _ _ _, rfl, rfl, rfl, rfl⟩
    rw [becomes]
    change (node.state.becomeFollower term).votedFor = ledger.ballot id term
    rw [RaftState.becomeFollower_votedFor, if_pos higher, free]
  · have sameTerm : ledger.term id = term := by rw [← represents.term_eq, same]
    refine ⟨ledger, .refl, build sameTerm rfl ?_, sameTerm, rfl, rfl, rfl, rfl⟩
    rw [becomes]
    change (node.state.becomeFollower term).votedFor = ledger.ballot id term
    rw [RaftState.becomeFollower_votedFor, if_neg (by omega), represents.vote_eq, sameTerm]

/-- Stepping down to a later term, without any message. -/
theorem Represents.refines_stepDown (represents : Represents peers ledger id node)
    (sound : SoundFor peers ledger) {term : Nat} (higher : node.state.currentTerm < term) :
    Refines peers ledger id (node.stepDown term) [] := by
  rcases represents.follow sound (Nat.le_of_lt higher) (node.stepDown term)
    (RaftNode.saved_persist represents.saved.isSome) (by
      rw [RaftNode.stepDown_state]) with ⟨later, steps, represented, _⟩
  exact ⟨later, steps, represented, fun _ member => by cases member⟩

/-- What a leader sends is cut from the log of its reign. -/
theorem Represents.justified_replicate (represents : Represents peers ledger id node)
    (sound : SoundFor peers ledger) (role : node.state.role = .leader) {action : Action}
    (member : action ∈ node.replicateToAllPeers) {packet : Packet}
    (sent : packetOf id action = some packet) : Justified peers ledger packet := by
  rcases RaftNode.mem_replicateToAllPeers member with ⟨peerId, next, _, listed, rfl⟩
  cases sent
  rcases represents.leads role with ⟨r, found, own⟩
  have ownLog := sound.log_of_leader found own
  refine ⟨represents.id_eq, r, by rw [represents.term_eq]; exact found, own, ?_⟩
  have positive : 0 < next := represents.next_pos _ listed
  obtain ⟨prev, rfl⟩ : Exists fun prev => next = prev + 1 := ⟨next - 1, by omega⟩
  simp only [Nat.add_sub_cancel]
  have sent : node.state.log.entriesFrom (prev + 1) = (ledger.log id).drop prev := by
    rw [RaftLog.entriesFrom_succ, represents.log_eq, RaftLog.body_mk]
  by_cases inside : prev ≤ (ledger.log id).length
  · refine Or.inl ⟨(ledger.log id).take prev, ?_, List.length_take_of_le inside, ?_⟩
    · rw [sent, List.take_append_drop, ownLog]
    · exact termAt_eq_lastTerm represents.log_eq inside
  · refine Or.inr ⟨?_, ?_, by simp only; omega⟩
    · rw [sent]
      exact List.drop_eq_nil_of_le (by omega)
    · apply RaftLog.termAt_of_gt
      rw [RaftLog.lastIndex_eq_length_body, represents.log_eq, RaftLog.body_mk]
      omega

/-- The electors of a candidate that has counted enough votes. -/
theorem Represents.majority_votes (distinct : peers.Nodup)
    (represents : Represents peers ledger id node) (role : node.state.role = .candidate)
    (enough : node.votesReceived.card >= node.state.majorityCount) :
    Majority peers.toFinset node.votesReceived := by
  rcases represents.stands role with ⟨_, _, votes⟩
  refine ⟨fun voter member => List.mem_toFinset.mpr (votes voter member).1, ?_⟩
  rw [List.toFinset_card_of_nodup distinct]
  rw [RaftState.majorityCount, represents.peers_eq] at enough
  omega

/-- The winner of an election, in the ledger that records its reign. -/
theorem Represents.winElection (represents : Represents peers ledger id node) :
    Represents peers { ledger with
      reign := Function.update ledger.reign (ledger.term id)
        (some ⟨id, node.votesReceived, ledger.log id, ledger.log id⟩) } id node.winElection.1 where
  id_eq := represents.id_eq
  peers_eq := represents.peers_eq
  term_eq := represents.term_eq
  vote_eq := represents.vote_eq
  log_eq := represents.log_eq
  fits := represents.fits
  saved := represents.saved.congr rfl rfl
  leads _ := ⟨_, Function.update_self _ _ _, rfl⟩
  stands candidate := by cases candidate
  next_pos := by
    intro pair member
    rcases List.mem_map.mp member with ⟨peerId, _, rfl⟩
    exact Nat.succ_pos _
  next_keys _ := by
    change (node.state.otherPeers.map (fun peerId => (peerId, _))).map Prod.fst =
      node.state.otherPeers
    rw [List.map_map]
    exact List.map_id _

/-- A candidate with a majority of the votes becomes the leader of its term. -/
theorem Represents.refines_winElection (distinct : peers.Nodup)
    (represents : Represents peers ledger id node) (sound : SoundFor peers ledger)
    (role : node.state.role = .candidate)
    (enough : node.votesReceived.card >= node.state.majorityCount) :
    Refines peers ledger id node.winElection.1 node.winElection.2 := by
  rcases represents.stands role with ⟨standing, unelected, votes⟩
  have majority := represents.majority_votes distinct role enough
  have cast : forall voter, voter ∈ node.votesReceived ->
      ledger.ballot voter (ledger.term id) = some id := fun voter member => (votes voter member).2
  have vacant : ledger.reign (ledger.term id) = none := by
    cases found : ledger.reign (ledger.term id) with
    | none => rfl
    | some r => exact absurd (sound.leader_unique found majority cast) (unelected r found)
  have step : Step peers.toFinset LogEntry.term id ledger _ :=
    .elect node.votesReceived majority cast standing vacant
  exact ⟨_, .single step, represents.winElection, fun action member packet sent =>
    represents.winElection.justified_replicate (sound.step step) rfl member sent⟩

/-- A node that stands for election, in the ledger that records its ballot and
its platform. -/
theorem Represents.candidacy (member : id ∈ peers) (represents : Represents peers ledger id node)
    (sound : SoundFor peers ledger) :
    Represents peers { ledger with
      term := Function.update ledger.term id (ledger.term id + 1)
      ballot := enter ledger.ballot id (ledger.term id + 1) id
      stand := enter ledger.stand id (ledger.term id + 1) (ledger.log id) } id node.candidacy where
  id_eq := represents.id_eq
  peers_eq := represents.peers_eq
  term_eq := by
    change node.state.currentTerm + 1 = Function.update ledger.term id (ledger.term id + 1) id
    rw [represents.term_eq, Function.update_self]
  vote_eq := by
    change some node.state.id = enter ledger.ballot id (ledger.term id + 1) id id
      (Function.update ledger.term id (ledger.term id + 1) id)
    rw [Function.update_self, enter_self, represents.id_eq]
  log_eq := represents.log_eq
  fits := represents.fits
  saved := RaftNode.saved_persist represents.saved.isSome
  leads leader := by cases leader
  stands _ := by
    simp only [Function.update_self]
    refine ⟨enter_self _ _ _ _, ?_, ?_⟩
    · intro r found own
      have reached := sound.leader_le found
      rw [own] at reached
      omega
    · intro voter single
      have same : voter = node.state.id := Finset.mem_singleton.mp single
      rw [same, represents.id_eq]
      exact ⟨member, enter_self _ _ _ _⟩
  next_pos := represents.next_pos
  next_keys leader := by cases leader

/-- An election that is started, and won at once in a cluster of one. -/
theorem Represents.refines_startElection (distinct : peers.Nodup) (member : id ∈ peers)
    (represents : Represents peers ledger id node) (sound : SoundFor peers ledger)
    {after : RaftNode} {actions : List Action}
    (started : node.startElection = .ok (after, actions)) :
    Refines peers ledger id after actions := by
  rcases RaftNode.startElection_eq_ok.mp started with ⟨_, result⟩
  have step : Step peers.toFinset LogEntry.term id ledger _ := .campaign
  have represented := represents.candidacy member sound
  by_cases enough : node.candidacy.votesReceived.card >= node.candidacy.state.majorityCount
  · rw [if_pos enough] at result
    rcases represented.refines_winElection distinct (sound.step step) rfl enough with
      ⟨later, steps, final, sent⟩
    rw [← result] at final sent
    exact ⟨later, .head step steps, final, sent⟩
  · rw [if_neg enough] at result
    cases result
    refine ⟨_, .single step, represented, ?_⟩
    intro action listed packet sent
    rcases List.mem_map.mp listed with ⟨peerId, _, rfl⟩
    cases sent
    refine ⟨represents.id_eq, ledger.log id, ?_, ?_, ?_⟩
    · change enter ledger.stand id (ledger.term id + 1) (ledger.log id) id
        (node.state.currentTerm + 1) = _
      rw [represents.term_eq, enter_self]
    · change node.state.log.lastIndex = _
      rw [RaftLog.lastIndex_eq_length_body, represents.log_eq, RaftLog.body_mk]
    · change node.state.log.lastTerm = _
      rw [represents.log_eq, RaftLog.lastTerm_eq_body (RaftLog.hasSentinel_mk _), RaftLog.body_mk]
      rfl

end Steps
end Cluster
end RaftStore
