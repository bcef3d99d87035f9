import RaftStore.Cluster.Agreement

namespace RaftStore
namespace Cluster

open Raft Consensus Systems

/-!
# Commitment

A leader commits what it believes a majority to hold, and it learns what a
follower holds from the index in the follower's reply.  That index is the end of
the follower's log, whatever the request was about, and it is believed whichever
term the reply is from.  So the commit index is only as good as these replies.

This file says which steps give a leader a wrong belief, and proves that without
them everything below a commit index is durable in the ledger.
-/

/-! ## Prudent steps -/

/-- The request is not older than the node and passes the consistency check. -/
def Accepts (node : RaftNode) (request : AppendEntriesRequest) : Prop :=
  node.state.currentTerm ≤ request.term ∧
    node.state.log.termAt request.prevLogIndex = request.prevLogTerm

/-- The check passes at an index that the log does not reach. -/
def Unverified (node : RaftNode) (request : AppendEntriesRequest) : Prop :=
  Accepts node request ∧ node.state.log.lastIndex < request.prevLogIndex

/-- The node accepts a request whose entries it already has, and its log goes on
behind them up to an entry of another term than the request's. -/
def ForeignTail (node : RaftNode) (request : AppendEntriesRequest) : Prop :=
  Accepts node request ∧
    matchingTerms request.entries (node.state.log.body.drop request.prevLogIndex) =
      request.entries.length ∧
    request.prevLogIndex + request.entries.length < node.state.log.lastIndex ∧
    node.state.log.lastTerm ≠ request.term

/-- A leader takes in a success reply that was sent in an earlier term. -/
def StaleMatch (node : RaftNode) (response : AppendEntriesResponse) : Prop :=
  node.state.role = .leader ∧ response.success = true ∧ response.term < node.state.currentTerm

instance (node : RaftNode) (request : AppendEntriesRequest) : Decidable (Accepts node request) :=
  inferInstanceAs (Decidable (_ ∧ _))

instance (node : RaftNode) (request : AppendEntriesRequest) : Decidable (Unverified node request) :=
  inferInstanceAs (Decidable (_ ∧ _))

instance (node : RaftNode) (request : AppendEntriesRequest) : Decidable (ForeignTail node request) :=
  inferInstanceAs (Decidable (_ ∧ _))

instance (node : RaftNode) (response : AppendEntriesResponse) :
    Decidable (StaleMatch node response) :=
  inferInstanceAs (Decidable (_ ∧ _))

/-- A step that gives no leader a wrong belief about a follower. -/
def Prudent (config : Configuration) : Event -> Prop
  | .deliver ⟨recipient, .appendEntries _ request⟩ =>
      ¬ ForeignTail (config.nodes recipient) request ∧ ¬ Unverified (config.nodes recipient) request
  | .deliver ⟨recipient, .appendEntriesResponse _ response⟩ =>
      ¬ StaleMatch (config.nodes recipient) response
  | _ => True

instance (config : Configuration) (event : Event) : Decidable (Prudent config event) :=
  match event with
  | .deliver ⟨_, .appendEntries _ _⟩ => inferInstanceAs (Decidable (_ ∧ _))
  | .deliver ⟨_, .appendEntriesResponse _ _⟩ => inferInstanceAs (Decidable (¬ _))
  | .deliver ⟨_, .requestVote _ _⟩ => inferInstanceAs (Decidable True)
  | .deliver ⟨_, .requestVoteResponse _ _⟩ => inferInstanceAs (Decidable True)
  | .tick _ => inferInstanceAs (Decidable True)
  | .propose _ _ => inferInstanceAs (Decidable True)
  | .restart _ => inferInstanceAs (Decidable True)

/-! ## What is known of a node and of a packet -/

/-- What a leader believes of its followers is recorded in the ledger. -/
def Backed (ledger : Ledger Nat LogEntry) (id : Nat) (node : RaftNode) : Prop :=
  node.state.role = .leader ->
    node.state.matchIndex.map Prod.fst = node.state.otherPeers ∧
    forall pair, pair ∈ node.state.matchIndex -> pair.2 ≤ (ledger.log id).length ∧
      (pair.2 = 0 ∨ ledger.agreed pair.1 (ledger.term id) ((ledger.log id).take pair.2))

/-- Everything a node has committed is applied and durable. -/
structure Settled (peers : List Nat) (ledger : Ledger Nat LogEntry) (id : Nat) (node : RaftNode) :
    Prop where
  applied : node.state.lastApplied = node.state.commitIndex
  bound : node.state.commitIndex ≤ (ledger.log id).length
  durable : Durable peers.toFinset LogEntry.term ledger (ledger.term id)
    ((ledger.log id).take node.state.commitIndex)
  backed : Backed ledger id node

/-- The commit index in a request and the match in a success reply are facts of
the ledger. -/
def Credible (peers : List Nat) (ledger : Ledger Nat LogEntry) (packet : Packet) : Prop :=
  match packet.message with
  | .appendEntries _ request => Exists fun r => ledger.reign request.term = some r ∧
      request.leaderCommit ≤ r.log.length ∧
      Durable peers.toFinset LogEntry.term ledger request.term (r.log.take request.leaderCommit)
  | .appendEntriesResponse sender response => response.success = true ->
      Exists fun r => Exists fun reported => response.matchIndex = some reported ∧
        ledger.reign response.term = some r ∧ reported ≤ r.log.length ∧
        ledger.agreed sender response.term (r.log.take reported)
  | _ => True

/-- The command at an index of some durable prefix. -/
def Applied (peers : List Nat) (ledger : Ledger Nat LogEntry) (index : Nat) (command : LogCommand) :
    Prop :=
  Exists fun term => Exists fun part => Exists fun position => Exists fun entry =>
    Durable peers.toFinset LogEntry.term ledger term part ∧ index = position + 1 ∧
      part[position]? = some entry ∧ entry.command = command

/-- Commitment is sound in the whole cluster. -/
structure Commits (peers : List Nat) (config : Configuration) (ledger : Ledger Nat LogEntry) :
    Prop where
  nodes : forall id, id ∈ peers -> Settled peers ledger id (config.nodes id)
  packets : forall packet, packet ∈ config.network -> Credible peers ledger packet

/-! ## Frames -/

section Frames

variable {peers : List Nat} {ledger later : Ledger Nat LogEntry} {id : Nat} {node after : RaftNode}

/-- A part of a log that is within a longer log is its part of the same length. -/
theorem take_eq_of_isPrefix {log longer : List LogEntry} {count : Nat} (bound : count ≤ log.length)
    (begins : log.take count <+: longer) : longer.take count = log.take count := by
  have equal := List.prefix_iff_eq_take.mp begins
  rw [List.length_take_of_le bound] at equal
  exact equal.symm

/-- What is at a position of a prefix is there in the whole. -/
theorem getElem?_of_isPrefix {part whole : List LogEntry} (within : part <+: whole) {position : Nat}
    {entry : LogEntry} (present : part[position]? = some entry) : whole[position]? = some entry := by
  rcases List.getElem?_eq_some_iff.mp present with ⟨inside, same⟩
  rw [← same]
  exact List.prefix_iff_getElem?.mp within position inside

/-- The leader's beliefs stay backed while its log and the history grow. -/
theorem Backed.keep (backed : Backed ledger id node) (grows : Extends ledger later)
    (sameTerm : later.term id = ledger.term id) (begins : ledger.log id <+: later.log id)
    (sameRole : after.state.role = node.state.role)
    (sameMatch : after.state.matchIndex = node.state.matchIndex)
    (sameOthers : after.state.otherPeers = node.state.otherPeers) : Backed later id after := by
  intro role
  rcases backed (sameRole.symm.trans role) with ⟨keys, pairs⟩
  rw [sameMatch, sameOthers]
  refine ⟨keys, ?_⟩
  intro pair member
  rcases pairs pair member with ⟨bound, held⟩
  refine ⟨Nat.le_trans bound begins.length_le, ?_⟩
  rw [sameTerm, take_eq_of_isPrefix bound ((List.take_prefix _ _).trans begins)]
  exact held.imp_right grows.agreed

theorem backed_of_not_leader (role : node.state.role ≠ .leader) : Backed ledger id node :=
  fun leads => absurd leads role

/-- A leader that was just elected believes nothing. -/
theorem backed_winElection : Backed ledger id node.winElection.1 := by
  intro _
  constructor
  · change (node.state.otherPeers.map (fun peerId => (peerId, 0))).map Prod.fst =
      node.state.otherPeers
    rw [List.map_map]
    exact List.map_id _
  · intro pair member
    rcases List.mem_map.mp member with ⟨peerId, _, rfl⟩
    exact ⟨Nat.zero_le _, Or.inl rfl⟩

/-- A node that does not act stays settled. -/
theorem Settled.frame {actor : Nat} (settled : Settled peers ledger id node)
    (moves : Moves actor ledger later) (different : id ≠ actor) : Settled peers later id node where
  applied := settled.applied
  bound := by
    rw [moves.log_eq different]
    exact settled.bound
  durable := by
    rw [moves.log_eq different, moves.term_eq different]
    exact settled.durable.mono moves.toExtends (Nat.le_refl _)
  backed := settled.backed.keep moves.toExtends (moves.term_eq different)
    (by rw [moves.log_eq different]) rfl rfl rfl

theorem Credible.mono {packet : Packet} (credible : Credible peers ledger packet)
    (grows : Extends ledger later) : Credible peers later packet := by
  rcases packet with ⟨recipient, message⟩
  cases message with
  | requestVote sender request => exact credible
  | requestVoteResponse sender response => exact credible
  | appendEntries sender request =>
      rcases credible with ⟨r, found, bound, durable⟩
      rcases grows.reign found with ⟨r', found', _, _, longer⟩
      refine ⟨r', found', Nat.le_trans bound longer.length_le, ?_⟩
      rw [take_eq_of_isPrefix bound ((List.take_prefix _ _).trans longer)]
      exact durable.mono grows (Nat.le_refl _)
  | appendEntriesResponse sender response =>
      intro success
      rcases credible success with ⟨r, reported, given, found, bound, agreed⟩
      rcases grows.reign found with ⟨r', found', _, _, longer⟩
      refine ⟨r', reported, given, found', Nat.le_trans bound longer.length_le, ?_⟩
      rw [take_eq_of_isPrefix bound ((List.take_prefix _ _).trans longer)]
      exact grows.agreed agreed

theorem Applied.mono {index : Nat} {command : LogCommand}
    (applied : Applied peers ledger index command) (grows : Extends ledger later) :
    Applied peers later index command := by
  rcases applied with ⟨term, part, position, entry, durable, rest⟩
  exact ⟨term, part, position, entry, durable.mono grows (Nat.le_refl _), rest⟩

/-- Two commands applied at one index are equal. -/
theorem SoundFor.applied_unique (sound : SoundFor peers ledger) {index : Nat}
    {left right : LogCommand} (first : Applied peers ledger index left)
    (second : Applied peers ledger index right) : left = right := by
  have chosen : forall {command}, Applied peers ledger index command ->
      Exists fun term => Exists fun whole => Exists fun entry =>
        Chosen peers.toFinset LogEntry.term ledger term whole ∧
          whole[index - 1]? = some entry ∧ entry.command = command := by
    rintro command ⟨term, part, position, entry, durable, rfl, present, same⟩
    rcases durable with rfl | ⟨origin, whole, _, chosen, within⟩
    · cases present
    · refine ⟨origin, whole, entry, chosen, ?_, same⟩
      exact getElem?_of_isPrefix within present
  rcases chosen first with ⟨_, leftWhole, leftEntry, leftChosen, leftPresent, rfl⟩
  rcases chosen second with ⟨_, rightWhole, rightEntry, rightChosen, rightPresent, rfl⟩
  rcases sound.chosen_comparable leftChosen rightChosen with shorter | longer
  · rw [getElem?_of_isPrefix shorter leftPresent] at rightPresent
    cases rightPresent
    rfl
  · rw [getElem?_of_isPrefix longer rightPresent] at leftPresent
    cases leftPresent
    rfl

end Frames

/-! ## The commit rules -/

section Rules

variable {peers : List Nat} {ledger : Ledger Nat LogEntry} {id : Nat} {node : RaftNode}

/-- Committing up to an index that is durable keeps the node settled. -/
theorem Settled.withCommit (settled : Settled peers ledger id node) {index : Nat}
    (later : node.state.commitIndex ≤ index) (inside : index ≤ (ledger.log id).length)
    (durable : Durable peers.toFinset LogEntry.term ledger (ledger.term id)
      ((ledger.log id).take index)) :
    Settled peers ledger id (node.withCommit (max node.state.lastApplied index) index) where
  applied := by
    change max node.state.lastApplied index = index
    rw [settled.applied, Nat.max_eq_right later]
  bound := inside
  durable := durable
  backed := settled.backed

/-- The entries applied below a durable index are durable. -/
theorem Represents.applied_of_durable (represents : Represents peers ledger id node) {term high : Nat}
    (durable : Durable peers.toFinset LogEntry.term ledger term ((ledger.log id).take high))
    {low index : Nat} {command : LogCommand}
    (member : Action.applyEntry index command ∈ node.applications low high) :
    Applied peers ledger index command := by
  rcases RaftNode.mem_applications.mp member with ⟨found, above, below, entry, present, _, same⟩
  cases same
  obtain ⟨position, rfl⟩ : Exists fun position => index = position + 1 := ⟨index - 1, by omega⟩
  refine ⟨term, _, position, entry, durable, rfl, ?_, rfl⟩
  rw [List.getElem?_take_of_lt (Nat.lt_of_succ_le below), ← represents.get_succ]
  exact present

/-- The nodes a leader counts for an index: itself and the followers whose match
reaches it. -/
def holders (node : RaftNode) (index : Nat) : Finset Nat :=
  insert node.state.id
    ((node.state.matchIndex.filter (fun pair => pair.2 >= index)).map Prod.fst).toFinset

/-- The count of the source is the number of these nodes. -/
theorem card_holders (distinct : peers.Nodup) (represents : Represents peers ledger id node)
    (keys : node.state.matchIndex.map Prod.fst = node.state.otherPeers) (index : Nat) :
    (holders node index).card = node.replicationCount index := by
  have others : (node.state.matchIndex.map Prod.fst).Nodup := by
    rw [keys, RaftState.otherPeers, represents.peers_eq]
    exact distinct.filter _
  have counted : ((node.state.matchIndex.filter (fun pair => pair.2 >= index)).map Prod.fst).Nodup :=
    others.sublist (List.filter_sublist.map _)
  have absent : node.state.id ∉
      ((node.state.matchIndex.filter (fun pair => pair.2 >= index)).map Prod.fst).toFinset := by
    intro member
    rcases List.mem_map.mp (List.mem_toFinset.mp member) with ⟨pair, listed, same⟩
    have inKeys : pair.1 ∈ node.state.otherPeers := by
      rw [← keys]
      exact List.mem_map_of_mem (List.mem_of_mem_filter listed)
    rw [same, RaftState.otherPeers] at inKeys
    simp at inKeys
  rw [holders, Finset.card_insert_of_notMem absent, List.toFinset_card_of_nodup counted,
    List.length_map, RaftNode.replicationCount, List.countP_eq_length_filter]
  omega

/-- An index of the leader's own term that enough nodes are counted for is
chosen. -/
theorem Represents.chosen_of_count (distinct : peers.Nodup) (member : id ∈ peers)
    (represents : Represents peers ledger id node) (sound : SoundFor peers ledger)
    (recorded : Recorded ledger) (role : node.state.role = .leader) (backed : Backed ledger id node)
    {index : Nat} (positive : 0 < index) (inside : index ≤ node.state.log.lastIndex)
    (current : node.state.log.termAt index = node.state.currentTerm)
    (enough : node.state.majorityCount ≤ node.replicationCount index) :
    Chosen peers.toFinset LogEntry.term ledger (ledger.term id) ((ledger.log id).take index) := by
  rcases backed role with ⟨keys, pairs⟩
  rw [RaftLog.lastIndex_eq_length_body, represents.log_eq, RaftLog.body_mk] at inside
  have held : forall holder, holder ∈ holders node index ->
      holder ∈ peers ∧ ledger.agreed holder (ledger.term id) ((ledger.log id).take index) := by
    intro holder listed
    rcases Finset.mem_insert.mp listed with own | follower
    · rw [own, represents.id_eq]
      refine ⟨member, recorded id _ ⟨List.take_prefix _ _, ?_⟩⟩
      rcases represents.reign_of_leader sound role with ⟨r, found, _, ownLog⟩
      refine ⟨r, by rw [← represents.term_eq]; exact found, ?_⟩
      rw [ownLog]
      exact List.take_prefix _ _
    · rcases List.mem_map.mp (List.mem_toFinset.mp follower) with ⟨pair, counted, rfl⟩
      rcases List.mem_filter.mp counted with ⟨believed, reaches⟩
      have reached : index ≤ pair.2 := by simpa using reaches
      constructor
      · have inKeys : pair.1 ∈ node.state.otherPeers := by
          rw [← keys]
          exact List.mem_map_of_mem believed
        rw [RaftState.otherPeers, represents.peers_eq] at inKeys
        exact List.mem_of_mem_filter inKeys
      · rcases (pairs pair believed).2 with zero | agreed
        · omega
        · exact sound.agreed_closed agreed (List.take_prefix_take_left reached)
  refine ⟨?_, holders node index, ⟨fun holder listed =>
    List.mem_toFinset.mpr (held holder listed).1, ?_⟩, fun holder listed => (held holder listed).2⟩
  · have ends : lastTerm LogEntry.term ((ledger.log id).take index) = ledger.term id := by
      rw [← termAt_eq_lastTerm represents.log_eq inside, current, represents.term_eq]
    rcases eq_nil_or_endsIn LogEntry.term ((ledger.log id).take index) with empty | endsIn
    · have length := List.length_take_of_le inside
      rw [empty, List.length_nil] at length
      omega
    · rw [ends] at endsIn
      exact endsIn
  · rw [List.toFinset_card_of_nodup distinct, card_holders distinct represents keys]
    rw [RaftState.majorityCount, represents.peers_eq] at enough
    omega

/-- What one of the commit rules does to a settled node. -/
structure Commitment (peers : List Nat) (ledger : Ledger Nat LogEntry) (id : Nat) (node : RaftNode)
    (result : RaftNode × List Action) : Prop where
  settled : Settled peers ledger id result.1
  applied : forall index command, Action.applyEntry index command ∈ result.2 ->
    Applied peers ledger index command
  monotone : node.state.commitIndex ≤ result.1.state.commitIndex

theorem Settled.unmoved (settled : Settled peers ledger id node) :
    Commitment peers ledger id node (node, []) :=
  ⟨settled, fun _ _ member => (List.not_mem_nil member).elim, Nat.le_refl _⟩

/-- A leader commits only what is chosen. -/
theorem Settled.maybeAdvanceCommitIndex (distinct : peers.Nodup) (member : id ∈ peers)
    (settled : Settled peers ledger id node) (represents : Represents peers ledger id node)
    (sound : SoundFor peers ledger) (recorded : Recorded ledger)
    (role : node.state.role = .leader) :
    Commitment peers ledger id node node.maybeAdvanceCommitIndex := by
  rw [RaftNode.maybeAdvanceCommitIndex_eq]
  rcases node.scannedCommit_cases with unmoved | ⟨above, inside, current, enough⟩
  · rw [if_neg (by omega)]
    exact settled.unmoved
  · rw [if_pos above]
    have durable := (represents.chosen_of_count distinct member sound recorded role settled.backed
      (by omega) inside current enough).durable
    rw [RaftLog.lastIndex_eq_length_body, represents.log_eq, RaftLog.body_mk] at inside
    exact ⟨settled.withCommit (Nat.le_of_lt above) inside durable,
      fun index command listed => represents.applied_of_durable durable listed, Nat.le_of_lt above⟩

/-- A follower whose log is part of its leader's commits only what is durable. -/
theorem Settled.followCommit (settled : Settled peers ledger id node)
    (represents : Represents peers ledger id node) {r : Reign Nat LogEntry} {leaderCommit : Nat}
    (issued : ledger.log id <+: r.log) (durable : Durable peers.toFinset LogEntry.term ledger
      (ledger.term id) (r.log.take leaderCommit)) :
    Commitment peers ledger id node (node.followCommit leaderCommit) := by
  rw [RaftNode.followCommit_eq]
  split
  · next above =>
      have length : node.state.log.lastIndex = (ledger.log id).length := by
        rw [RaftLog.lastIndex_eq_length_body, represents.log_eq, RaftLog.body_mk]
      rw [length]
      have later : node.state.commitIndex ≤ min leaderCommit (ledger.log id).length :=
        Nat.le_min.mpr ⟨Nat.le_of_lt above, settled.bound⟩
      have part : (ledger.log id).take (min leaderCommit (ledger.log id).length) <+:
          r.log.take leaderCommit := by
        rw [← List.take_take, List.take_length, List.prefix_iff_eq_take.mp issued, List.take_take]
        exact List.take_prefix_take_left (Nat.min_le_left _ _)
      have kept := durable.of_isPrefix part
      exact ⟨settled.withCommit later (Nat.min_le_right _ _) kept,
        fun index command listed => represents.applied_of_durable kept listed, later⟩
  · exact settled.unmoved

/-- What a leader sends is credible. -/
theorem Settled.credible_replicate (settled : Settled peers ledger id node)
    (represents : Represents peers ledger id node) (sound : SoundFor peers ledger)
    (role : node.state.role = .leader) {action : Action}
    (listed : action ∈ node.replicateToAllPeers) {packet : Packet}
    (sent : packetOf id action = some packet) : Credible peers ledger packet := by
  rcases RaftNode.mem_replicateToAllPeers listed with ⟨peerId, next, _, _, rfl⟩
  cases sent
  rcases represents.reign_of_leader sound role with ⟨r, found, _, ownLog⟩
  have bound := settled.bound
  have durable := settled.durable
  rw [ownLog] at bound durable
  exact ⟨r, found, bound, by rw [← represents.term_eq] at durable; exact durable⟩

end Rules
end Cluster
end RaftStore
