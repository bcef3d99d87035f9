import RaftStore.Cluster.Simulation

namespace RaftStore
namespace Cluster

open Raft Consensus Systems

/-!
# Every handler refines the ledger

For each handler, the node it leaves is represented after some steps of that
node in the ledger, and every message it sends is justified there.  The step of
a whole cluster and the runs follow at the end: along a run there is a ledger
for every configuration visited, and the ledgers extend each other.
-/

section Handlers

variable {peers : List Nat} {ledger : Ledger Nat LogEntry} {id : Nat} {node : RaftNode}

/-- A handler without a step in the ledger and without messages. -/
theorem Represents.refines_silently {after : RaftNode} (represents : Represents peers ledger id after) :
    Refines peers ledger id after [] :=
  ⟨ledger, .refl, represents, fun _ member => by cases member⟩

/-- Applying entries sends nothing. -/
theorem packetOf_applications {low high : Nat} {action : Action}
    (member : action ∈ node.applications low high) : packetOf id action = none := by
  rcases RaftNode.mem_applications.mp member with ⟨_, _, _, _, _, _, rfl⟩
  rfl

/-- Advancing the commit index of a leader is invisible. -/
theorem Represents.maybeAdvanceCommitIndex (represents : Represents peers ledger id node) :
    Represents peers ledger id node.maybeAdvanceCommitIndex.1 ∧
      forall action, action ∈ node.maybeAdvanceCommitIndex.2 -> packetOf id action = none := by
  rw [RaftNode.maybeAdvanceCommitIndex_eq]
  split
  · exact ⟨represents.withCommit _ _, fun action member => packetOf_applications member⟩
  · exact ⟨represents, fun action member => by cases member⟩

/-- Following the commit index of a leader is invisible. -/
theorem Represents.followCommit (represents : Represents peers ledger id node) (leaderCommit : Nat) :
    Represents peers ledger id (node.followCommit leaderCommit).1 ∧
      forall action, action ∈ (node.followCommit leaderCommit).2 -> packetOf id action = none := by
  rw [RaftNode.followCommit_eq]
  split
  · exact ⟨represents.withCommit _ _, fun action member => packetOf_applications member⟩
  · exact ⟨represents, fun action member => by cases member⟩

theorem Represents.of_maybeAdvanceCommitIndex
    (represents : Represents peers ledger id node.maybeAdvanceCommitIndex.1) :
    Represents peers ledger id node := by
  rw [RaftNode.maybeAdvanceCommitIndex_eq] at represents
  split at represents
  · exact represents.congr rfl rfl rfl rfl rfl rfl rfl rfl represents.next_pos rfl
  · exact represents

theorem Represents.of_followCommit {leaderCommit : Nat}
    (represents : Represents peers ledger id (node.followCommit leaderCommit).1) :
    Represents peers ledger id node := by
  rw [RaftNode.followCommit_eq] at represents
  split at represents
  · exact represents.congr rfl rfl rfl rfl rfl rfl rfl rfl represents.next_pos rfl
  · exact represents

/-! ## Ticks -/

theorem Represents.refines_tick (distinct : peers.Nodup) (member : id ∈ peers)
    (represents : Represents peers ledger id node) (sound : SoundFor peers ledger)
    {after : RaftNode} {actions : List Action} (ticked : node.tick = .ok (after, actions)) :
    Refines peers ledger id after actions := by
  rcases RaftNode.tick_cases ticked with
    ⟨timeout, rfl, rfl⟩ | ⟨role, timeout, rfl, sent⟩ | ⟨_, timeout, started⟩
  · exact Represents.refines_silently
      (represents.congr rfl rfl rfl rfl rfl rfl rfl rfl represents.next_pos rfl)
  · refine ⟨ledger, .refl, represents.congr rfl rfl rfl rfl rfl rfl rfl rfl represents.next_pos rfl,
      ?_⟩
    intro action listed packet packed
    rcases sent with none | all
    · rw [none] at listed
      cases listed
    · rw [all] at listed
      exact represents.justified_replicate sound role listed packed
  · have waiting : Represents peers ledger id { node with electionTimeout := timeout } :=
      represents.congr rfl rfl rfl rfl rfl rfl rfl rfl represents.next_pos rfl
    exact waiting.refines_startElection distinct member sound started

/-! ## Votes -/

/-- Stepping up to the term of a vote request, if it is later. -/
theorem Represents.raiseTerm (represents : Represents peers ledger id node)
    (sound : SoundFor peers ledger) {term : Nat} (current : node.state.currentTerm ≤ term) :
    Exists fun later => StepsOf peers id ledger later ∧
      Represents peers later id (node.raiseTerm term) ∧ later.term id = term ∧
      later.log = ledger.log ∧ later.stand = ledger.stand := by
  unfold RaftNode.raiseTerm
  split
  · rcases represents.follow sound current (node.stepDown term)
      (RaftNode.saved_persist represents.saved.isSome) (by rw [RaftNode.stepDown_state]) with
      ⟨later, steps, represented, sameTerm, sameLog, _, sameStand, _⟩
    exact ⟨later, steps, represented, sameTerm, sameLog, sameStand⟩
  · refine ⟨ledger, .refl, represents, ?_, rfl, rfl⟩
    rw [← represents.term_eq]
    omega

/-- A node that votes, in the ledger that records the ballot. -/
theorem Represents.castVote (represents : Represents peers ledger id node)
    (sound : SoundFor peers ledger) {candidate : Nat} {platform : List LogEntry}
    (free : forall other, ledger.ballot id (ledger.term id) = some other -> other = candidate)
    (standing : ledger.stand candidate (ledger.term id) = some platform)
    (upToDate : UpToDate LogEntry.term platform (ledger.log id)) :
    Represents peers { ledger with
      ballot := enter ledger.ballot id (ledger.term id) candidate } id (node.castVote candidate) := by
  have step : Step peers.toFinset LogEntry.term id ledger _ :=
    .grant candidate platform free standing upToDate
  have moves := step.moves sound
  exact {
    id_eq := represents.id_eq
    peers_eq := represents.peers_eq
    term_eq := represents.term_eq
    vote_eq := (enter_self _ _ _ _).symm
    log_eq := represents.log_eq
    fits := represents.fits
    saved := RaftNode.saved_persist represents.saved.isSome
    leads := represents.leads
    stands := fun role => by
      rcases represents.stands role with ⟨own, unelected, votes⟩
      exact ⟨own, unelected, fun voter member =>
        ⟨(votes voter member).1, moves.ballot (votes voter member).2⟩⟩
    next_pos := represents.next_pos
    next_keys := represents.next_keys }

/-- The check of the source compares what the abstract election restriction
compares. -/
theorem upToDate_of_candidateUpToDate {log : RaftLog} {body platform : List LogEntry}
    {request : RequestVoteRequest} (holds : log = ⟨sentinel :: body⟩)
    (index : request.lastLogIndex = platform.length)
    (term : request.lastLogTerm = lastTerm LogEntry.term platform)
    (checked : RaftNode.candidateUpToDate log request = true) : UpToDate LogEntry.term platform body := by
  have ownTerm : log.lastTerm = lastTerm LogEntry.term body := by
    rw [holds, RaftLog.lastTerm_eq_body (RaftLog.hasSentinel_mk _), RaftLog.body_mk]
    rfl
  have ownIndex : log.lastIndex = body.length := by
    rw [RaftLog.lastIndex_eq_length_body, holds, RaftLog.body_mk]
  simp only [RaftNode.candidateUpToDate, ownTerm, ownIndex, index, term, Bool.or_eq_true, Bool.and_eq_true,
    decide_eq_true_eq] at checked
  rcases checked with later | ⟨same, longer⟩
  · exact Or.inl later
  · exact Or.inr ⟨same.symm, longer⟩

theorem Represents.refines_handleRequestVote (member : id ∈ peers)
    (represents : Represents peers ledger id node) (sound : SoundFor peers ledger)
    {sender : Nat} {request : RequestVoteRequest}
    (justified : Justified peers ledger ⟨id, .requestVote sender request⟩) :
    Refines peers ledger id (node.handleRequestVote request).1
      (node.handleRequestVote request).2 := by
  have refusal : forall (later : Ledger Nat LogEntry) (term : Nat) (action : Action) (packet : Packet),
      action ∈ [Action.sendRequestVoteResponse request.candidateId ⟨term, false⟩] ->
      packetOf id action = some packet -> Justified peers later packet := by
    intro later term action packet listed packed
    rw [List.mem_singleton.mp listed] at packed
    cases packed
    exact ⟨member, fun granted => by cases granted⟩
  rcases node.handleRequestVote_cases request with
    ⟨_, equal⟩ | ⟨current, free, checked, equal⟩ | ⟨current, _, equal⟩
  · rw [equal]
    exact ⟨ledger, .refl, represents, fun action listed packet packed =>
      refusal _ _ action packet listed packed⟩
  · rcases represents.raiseTerm sound current with
      ⟨later, steps, raised, sameTerm, sameLog, sameStand⟩
    rcases justified with ⟨own, platform, standing, index, term⟩
    have stands : later.stand request.candidateId (later.term id) = some platform := by
      rw [sameStand, sameTerm, own]
      exact standing
    have upToDate : UpToDate LogEntry.term platform (later.log id) := by
      rw [sameLog]
      exact upToDate_of_candidateUpToDate represents.log_eq index term checked
    have unbound : forall other, later.ballot id (later.term id) = some other ->
        other = request.candidateId := by
      intro other cast
      rw [raised.vote_eq, cast] at free
      simpa [RaftNode.canVote] using free
    have step : Step peers.toFinset LogEntry.term id later _ :=
      .grant request.candidateId platform unbound stands upToDate
    rw [equal]
    refine ⟨_, steps.tail step, raised.castVote (steps.sound sound) unbound stands upToDate, ?_⟩
    intro action listed packet packed
    rw [List.mem_singleton.mp listed] at packed
    cases packed
    refine ⟨member, fun _ => ?_⟩
    rw [← sameTerm]
    exact enter_self _ _ _ _
  · rcases represents.raiseTerm sound current with ⟨later, steps, raised, _⟩
    rw [equal]
    exact ⟨later, steps, raised, fun action listed packet packed =>
      refusal _ _ action packet listed packed⟩

/-- A candidate counts a vote that was cast for it. -/
theorem Represents.countVote (represents : Represents peers ledger id node)
    (role : node.state.role = .candidate) {sender : Nat} {response : RequestVoteResponse}
    (justified : Justified peers ledger ⟨id, .requestVoteResponse sender response⟩)
    (same : response.term = node.state.currentTerm) :
    Represents peers ledger id (node.countVote sender response) := by
  unfold RaftNode.countVote
  split
  · next granted =>
      rcases justified with ⟨member, cast⟩
      refine { represents with
        saved := represents.saved.congr rfl rfl
        stands := fun _ => ?_ }
      rcases represents.stands role with ⟨standing, unelected, votes⟩
      refine ⟨standing, unelected, ?_⟩
      intro voter counted
      rcases Finset.mem_insert.mp counted with rfl | before
      · refine ⟨member, ?_⟩
        rw [← represents.term_eq, ← same]
        exact cast granted
      · exact votes voter before
  · exact represents

theorem Represents.refines_handleRequestVoteResponse (distinct : peers.Nodup)
    (represents : Represents peers ledger id node) (sound : SoundFor peers ledger)
    {sender : Nat} {response : RequestVoteResponse}
    (justified : Justified peers ledger ⟨id, .requestVoteResponse sender response⟩) :
    Refines peers ledger id (node.handleRequestVoteResponse sender response).1
      (node.handleRequestVoteResponse sender response).2 := by
  rcases node.handleRequestVoteResponse_cases sender response with
    equal | ⟨_, higher, equal⟩ | ⟨role, same, equal⟩
  · rw [equal]
    exact represents.refines_silently
  · rw [equal]
    exact represents.refines_stepDown sound higher
  · rw [equal]
    have counted := represents.countVote role justified same
    have stillRole : (node.countVote sender response).state.role = .candidate := by
      rw [RaftNode.countVote_state, role]
    split
    · next enough => exact counted.refines_winElection distinct sound stillRole enough
    · exact counted.refines_silently

/-! ## Replication requests -/

/-- A request that was cut from the leader's log passes the consistency check only
within the log of its receiver, since beyond it the term is 0. -/
theorem Represents.inside_of_passes (represents : Represents peers ledger id node)
    (sound : SoundFor peers ledger) {request : AppendEntriesRequest} {r : Reign Nat LogEntry}
    (found : ledger.reign request.term = some r) {base : List LogEntry}
    (cut : base ++ request.entries <+: r.log) (length : base.length = request.prevLogIndex)
    (term : request.prevLogTerm = lastTerm LogEntry.term base)
    (passes : node.state.log.termAt request.prevLogIndex = request.prevLogTerm) :
    request.prevLogIndex ≤ (ledger.log id).length := by
  by_contra outside
  have zero : lastTerm LogEntry.term base = 0 := by
    rw [← term, ← passes]
    apply RaftLog.termAt_of_gt
    rw [RaftLog.lastIndex_eq_length_body, represents.log_eq, RaftLog.body_mk]
    omega
  rcases eq_nil_or_endsIn LogEntry.term base with none | ⟨init, last, equal, same⟩
  · rw [none] at length
    simp only [List.length_nil] at length
    omega
  · have baseRooted := (sound.lawful found).rooted.of_isPrefix cut
    have positive : 0 < last.term :=
      sound.term_pos_of_rooted baseRooted (by rw [equal]; simp)
    omega

/-- A request of a leader that passes the consistency check within the log is
laid over it.  One that passes it beyond the end of the log is an empty probe. -/
theorem Represents.insertEntries_cases (represents : Represents peers ledger id node)
    (sound : SoundFor peers ledger) {request : AppendEntriesRequest} {r : Reign Nat LogEntry}
    (found : ledger.reign request.term = some r) (issued : Issued r request)
    (passes : node.state.log.termAt request.prevLogIndex = request.prevLogTerm)
    {result : RaftNode} (inserted : node.insertEntries request = .ok result) :
    (Exists fun base => base ++ request.entries <+: r.log ∧ base.length = request.prevLogIndex ∧
      base <+: ledger.log id ∧
      result.state = { node.state with
        log := ⟨sentinel :: overlay (base ++ request.entries) (ledger.log id)⟩ } ∧
      result.state.log.entries.length ≤ vecCapacity ∧ result.Saved) ∨
    (request.entries = [] ∧ (ledger.log id).length < request.prevLogIndex ∧ result = node) := by
  have rooted := sound.log_rooted id
  rcases issued with ⟨base, cut, length, term⟩ | ⟨empty, noTerm, positive⟩
  · have baseRooted := (sound.lawful found).rooted.of_isPrefix cut
    have inside := represents.inside_of_passes sound found cut length term passes
    have begins : (ledger.log id).take request.prevLogIndex = base := by
      apply eq_of_lastTerm (rooted.of_isPrefix (List.take_prefix _ _))
        (baseRooted.of_isPrefix (List.prefix_append _ _))
      · rw [List.length_take_of_le inside, length]
      · rw [← termAt_eq_lastTerm represents.log_eq inside, passes, term]
    have spliced : splice (ledger.log id) request.prevLogIndex request.entries =
        overlay (base ++ request.entries) (ledger.log id) := by
      rw [← length] at begins ⊢
      exact splice_eq_overlay rooted baseRooted begins
    refine Or.inl ⟨base, cut, length, ?_, ?_⟩
    · rw [← begins]
      exact List.take_prefix _ _
    · rcases RaftNode.insertEntries_eq_ok represents.log_eq inside inserted with
        ⟨_, fits, rfl⟩ | ⟨_, unchanged, rfl⟩
      · rw [spliced] at fits ⊢
        exact ⟨rfl, fits, RaftNode.saved_persist represents.saved.isSome⟩
      · rw [spliced] at unchanged
        rw [unchanged, ← represents.log_eq]
        exact ⟨rfl, represents.fits, represents.saved⟩
  · rw [RaftNode.insertEntries_of_empty node empty] at inserted
    refine Or.inr ⟨empty, ?_, (Except.ok.inj inserted).symm⟩
    by_contra inside
    have within : request.prevLogIndex ≤ (ledger.log id).length := by omega
    have ends : EndsIn LogEntry.term ((ledger.log id).take request.prevLogIndex)
        (lastTerm LogEntry.term ((ledger.log id).take request.prevLogIndex)) := by
      rcases eq_nil_or_endsIn LogEntry.term
        ((ledger.log id).take request.prevLogIndex) with none | ends
      · have := List.length_take_of_le within
        rw [none] at this
        simp only [List.length_nil] at this
        omega
      · exact ends
    rcases ends with ⟨init, last, equal, same⟩
    have positiveTerm : 0 < last.term :=
      sound.term_pos_of_rooted (rooted.of_isPrefix (List.take_prefix request.prevLogIndex _))
        (by rw [equal]; simp)
    rw [← termAt_eq_lastTerm represents.log_eq within, passes, noTerm] at same
    omega

theorem Represents.acceptLeader (represents : Represents peers ledger id node)
    (sound : SoundFor peers ledger) {request : AppendEntriesRequest}
    (current : node.state.currentTerm ≤ request.term) :
    Exists fun later => StepsOf peers id ledger later ∧
      Represents peers later id (node.acceptLeader request) ∧ later.term id = request.term ∧
      later.log = ledger.log ∧ later.reign = ledger.reign := by
  rcases represents.follow sound current (node.acceptLeader request)
    (RaftNode.saved_persist represents.saved.isSome) rfl with
    ⟨later, steps, represented, sameTerm, sameLog, sameReign, _⟩
  exact ⟨later, steps, represented, sameTerm, sameLog, sameReign⟩

/-- A follower that has taken over what its leader issued. -/
theorem Represents.overlay (represents : Represents peers ledger id node)
    (role : node.state.role = .follower) {issued : List LogEntry} {result : RaftNode}
    (equal : result.state = { node.state with
      log := ⟨sentinel :: overlay issued (ledger.log id)⟩ })
    (fits : result.state.log.entries.length ≤ vecCapacity) (saved : result.Saved) :
    Represents peers { ledger with
      log := Function.update ledger.log id (Consensus.overlay issued (ledger.log id)) } id result where
  id_eq := by rw [equal]; exact represents.id_eq
  peers_eq := by rw [equal]; exact represents.peers_eq
  term_eq := by rw [equal]; exact represents.term_eq
  vote_eq := by rw [equal]; exact represents.vote_eq
  log_eq := by
    rw [equal]
    simp only [Function.update_self]
  fits := fits
  saved := saved
  leads leader := by
    rw [equal] at leader
    exact absurd (role.symm.trans leader) (by simp)
  stands candidate := by
    rw [equal] at candidate
    exact absurd (role.symm.trans candidate) (by simp)
  next_pos := by rw [equal]; exact represents.next_pos
  next_keys leader := by
    rw [equal] at leader
    exact absurd (role.symm.trans leader) (by simp)

theorem Represents.refines_handleAppendEntries (member : id ∈ peers)
    (represents : Represents peers ledger id node) (sound : SoundFor peers ledger)
    {sender : Nat} {request : AppendEntriesRequest}
    (justified : Justified peers ledger ⟨id, .appendEntries sender request⟩)
    {after : RaftNode} {actions : List Action}
    (handled : node.handleAppendEntries request = .ok (after, actions)) :
    Refines peers ledger id after actions := by
  have reply : forall (later : Ledger Nat LogEntry) (response : AppendEntriesResponse)
      (action : Action) (packet : Packet),
      action = Action.sendAppendEntriesResponse request.leaderId response ->
      packetOf id action = some packet -> Justified peers later packet := by
    rintro later response action packet rfl packed
    cases packed
    exact member
  rcases RaftNode.handleAppendEntries_cases handled with
    ⟨_, rfl, rfl⟩ | ⟨current, _, rfl, rfl⟩ | ⟨current, passes, inserted, ok, rfl, rfl⟩
  · exact ⟨ledger, .refl, represents, fun action listed packet packed =>
      reply _ _ action packet (List.mem_singleton.mp listed) packed⟩
  · rcases represents.acceptLeader sound current with ⟨later, steps, followed, _⟩
    exact ⟨later, steps, followed, fun action listed packet packed =>
      reply _ _ action packet (List.mem_singleton.mp listed) packed⟩
  · rcases represents.acceptLeader sound current with
      ⟨later, steps, followed, sameTerm, sameLog, sameReign⟩
    rcases justified with ⟨_, r, found, _, issued⟩
    rw [← sameReign] at found
    have sameEntries : (node.acceptLeader request).state.log = node.state.log := by simp
    have finish : forall final, StepsOf peers id ledger final ->
        Represents peers final id inserted ->
        Refines peers ledger id (inserted.followCommit request.leaderCommit).1
          ((inserted.followCommit request.leaderCommit).2 ++
            [.sendAppendEntriesResponse request.leaderId
              ⟨(inserted.followCommit request.leaderCommit).1.state.currentTerm, true,
                some (inserted.followCommit request.leaderCommit).1.state.log.lastIndex⟩]) := by
      intro final reached represented
      refine ⟨final, reached, (represented.followCommit _).1, ?_⟩
      intro action listed packet packed
      rcases List.mem_append.mp listed with applied | last
      · rw [(represented.followCommit _).2 action applied] at packed
        cases packed
      · exact reply _ _ action packet (List.mem_singleton.mp last) packed
    rcases followed.insertEntries_cases (steps.sound sound) found issued
        (by rw [sameEntries]; exact passes) ok with
      ⟨base, cut, _, _, equal, fits, saved⟩ | ⟨_, _, rfl⟩
    · refine finish _ (steps.tail (.accept r (base ++ request.entries) (by rw [sameTerm]; exact found)
        cut)) (followed.overlay (by simp) equal fits saved)
    · exact finish later steps followed

/-! ## Replication responses -/

/-- The probes of a leader stay positive when a follower answers. -/
theorem Represents.withTables (represents : Represents peers ledger id node)
    {matchIndex nextIndex : List (Nat × Nat)} (positive : forall pair, pair ∈ nextIndex -> 0 < pair.2)
    (keys : nextIndex.map Prod.fst = node.state.nextIndex.map Prod.fst) :
    Represents peers ledger id { node with state := { node.state with
      matchIndex := matchIndex, nextIndex := nextIndex } } :=
  represents.congr rfl rfl rfl rfl rfl rfl rfl rfl positive keys

theorem Represents.recordMatch (represents : Represents peers ledger id node) {sender : Nat}
    {reported : Option Nat} {recorded : RaftNode}
    (ok : node.recordMatch sender reported = .ok recorded) : Represents peers ledger id recorded := by
  have positive := RaftNode.recordMatch_pos ok represents.next_pos
  rcases RaftNode.recordMatch_eq_ok ok with ⟨matchIndex, nextIndex, rfl, unchanged | found⟩
  · rcases unchanged with ⟨_, rfl, rfl⟩
    exact represents
  · rcases found with ⟨index, _, _, updated⟩
    exact represents.withTables positive (RaftNode.updateFirst_keys updated)

theorem Represents.refines_handleAppendEntriesResponse
    (represents : Represents peers ledger id node) (sound : SoundFor peers ledger)
    {sender : Nat} {response : AppendEntriesResponse} {after : RaftNode} {actions : List Action}
    (handled : node.handleAppendEntriesResponse sender response = .ok (after, actions)) :
    Refines peers ledger id after actions := by
  rcases RaftNode.handleAppendEntriesResponse_cases handled with
    ⟨_, rfl, rfl⟩ | ⟨_, higher, rfl, rfl⟩ | ⟨_, _, _, recorded, ok, equal⟩ | ⟨_, _, _, ok, rfl⟩
  · exact represents.refines_silently
  · exact represents.refines_stepDown sound higher
  · rcases (represents.recordMatch ok).maybeAdvanceCommitIndex with ⟨represented, silent⟩
    rw [← equal] at represented silent
    refine ⟨ledger, .refl, represented, fun action listed packet packed => ?_⟩
    rw [silent action listed] at packed
    cases packed
  · have positive := RaftNode.recordRejection_pos ok represents.next_pos
    rcases RaftNode.recordRejection_eq_ok ok with ⟨nextIndex, rfl, updated⟩
    exact Represents.refines_silently
      (represents.withTables positive (RaftNode.updateFirst_keys updated))

/-! ## Proposals -/

/-- A leader that has appended an entry, in the ledger that adds it to the
reign. -/
theorem Represents.withEntry (represents : Represents peers ledger id node) {r : Reign Nat LogEntry}
    (own : r.leader = id) (role : node.state.role = .leader)
    (fits : node.state.log.entries.length + 1 ≤ vecCapacity) (command : LogCommand) :
    Represents peers { ledger with
      log := Function.update ledger.log id (ledger.log id ++ [⟨node.state.currentTerm, command⟩])
      reign := Function.update ledger.reign (ledger.term id)
        (some { r with log := r.log ++ [⟨node.state.currentTerm, command⟩] }) } id
      (node.withEntry command) where
  id_eq := represents.id_eq
  peers_eq := represents.peers_eq
  term_eq := represents.term_eq
  vote_eq := represents.vote_eq
  log_eq := by
    change RaftLog.mk (node.state.log.entries ++ _) = _
    rw [represents.log_eq]
    simp only [Function.update_self, List.cons_append]
  fits := by
    change (node.state.log.entries ++ [_]).length ≤ vecCapacity
    simpa using fits
  saved := RaftNode.saved_persist represents.saved.isSome
  leads _ := ⟨_, Function.update_self _ _ _, own⟩
  stands candidate := absurd (role.symm.trans candidate) (by simp)
  next_pos := represents.next_pos
  next_keys := represents.next_keys

theorem Represents.refines_propose (represents : Represents peers ledger id node)
    (sound : SoundFor peers ledger) {command : LogCommand} {after : RaftNode}
    {actions : Option (List Action)} (proposed : node.propose command = .ok (after, actions)) :
    Refines peers ledger id after (actions.getD []) := by
  rcases RaftNode.propose_cases proposed with ⟨_, rfl, rfl⟩ | ⟨role, fits, rfl, rfl⟩
  · exact represents.refines_silently
  · rcases represents.leads role with ⟨r, found, own⟩
    have step : Step peers.toFinset LogEntry.term id ledger _ :=
      .extend r ⟨node.state.currentTerm, command⟩ found own represents.term_eq
    have grown := represents.withEntry own role fits command
    refine ⟨_, .single step, grown.maybeAdvanceCommitIndex.1, ?_⟩
    intro action listed packet packed
    rcases List.mem_append.mp listed with sent | applied
    · exact grown.justified_replicate (sound.step step) role sent packed
    · rw [grown.maybeAdvanceCommitIndex.2 action applied] at packed
      cases packed

/-! ## Restarts -/

/-- A node that comes back has the term, the vote and the log it had. -/
theorem Represents.restarted (represents : Represents peers ledger id node) :
    Represents peers ledger id (Configuration.restarted peers id node) := by
  have kept : node.state.log.HasSentinel := by
    rw [represents.log_eq]
    exact RaftLog.hasSentinel_mk _
  have resumes := Configuration.resumes_restarted peers id represents.saved kept
  have awakened := Configuration.awakened_restarted peers id node
  exact {
    id_eq := awakened.id
    peers_eq := awakened.peers
    term_eq := resumes.term.trans represents.term_eq
    vote_eq := resumes.vote.trans represents.vote_eq
    log_eq := resumes.log.trans represents.log_eq
    fits := by rw [resumes.log]; exact represents.fits
    saved := resumes.saved
    leads := fun leader => by rw [awakened.role] at leader; cases leader
    stands := fun candidate => by rw [awakened.role] at candidate; cases candidate
    next_pos := fun pair member => by rw [awakened.next] at member; cases member
    next_keys := fun leader => by rw [awakened.role] at leader; cases leader }

end Handlers

/-! ## Steps of the cluster -/

section Runs

variable {peers : List Nat} {ledger : Ledger Nat LogEntry} {config : Configuration}

/-- The response to an enabled event refines the ledger. -/
theorem Simulates.refines_respond (distinct : peers.Nodup) (simulates : Simulates peers config ledger)
    (sound : SoundFor peers ledger) {event : Event} (member : event.actor ∈ peers)
    (enabled : config.Enabled event) {after : RaftNode} {actions : List Action}
    (response : config.respond peers event = .ok (after, actions)) :
    Refines peers ledger event.actor after actions := by
  have represents := simulates.nodes event.actor member
  cases event with
  | tick id => exact represents.refines_tick distinct member sound response
  | propose id command =>
      rcases Outcome.map_eq_ok.mp response with ⟨⟨proposed, emitted⟩, ok, equal⟩
      cases equal
      exact represents.refines_propose sound ok
  | restart id =>
      cases response
      exact represents.restarted.refines_silently
  | deliver packet =>
      have justified := simulates.packets packet enabled
      rcases packet with ⟨recipient, message⟩
      cases dispatch_handled response with
      | requestVote sender request =>
          exact represents.refines_handleRequestVote member sound justified
      | requestVoteResponse sender vote =>
          exact represents.refines_handleRequestVoteResponse distinct sound justified
      | appendEntries sender request returned =>
          exact represents.refines_handleAppendEntries member sound justified returned
      | appendEntriesResponse sender reply returned =>
          exact represents.refines_handleAppendEntriesResponse sound returned

/-- After recording what the nodes hold, all of it is recorded. -/
theorem recorded_agree (ledger : Ledger Nat LogEntry) :
    Recorded { ledger with
      agreed := fun node term part => ledger.agreed node term part ∨
        (term = ledger.term node ∧ Holds ledger node part) } :=
  fun _ _ holds => Or.inr ⟨rfl, holds⟩

/-- A step of the cluster corresponds to steps of its node in the ledger. -/
theorem Simulates.step (distinct : peers.Nodup) (simulates : Simulates peers config ledger)
    (sound : SoundFor peers ledger) {event : Event} {next : Configuration} {actions : List Action}
    (stepped : config.step peers event = some (next, actions)) :
    Exists fun later => StepsOf peers event.actor ledger later ∧ Simulates peers next later := by
  rcases Configuration.step_eq_some.mp stepped with ⟨member, enabled, node, response, rfl⟩
  rcases simulates.refines_respond distinct sound member enabled response with
    ⟨middle, steps, represented, sent⟩
  have record : Step peers.toFinset LogEntry.term event.actor middle _ := .agree
  have recording : StepsOf peers event.actor ledger _ := steps.tail record
  have moves := recording.moves sound
  refine ⟨_, recording, ?_, ?_, recorded_agree middle⟩
  · apply Configuration.forall_install_nodes (fun id node => id ∈ peers -> Represents peers _ id node)
    · exact fun _ => { represented with }
    · intro id acting listed
      exact (simulates.nodes id listed).frame moves acting
  · intro packet listed
    rcases Configuration.mem_install_network.mp listed with before | ⟨action, emitted, packed⟩
    · exact (simulates.packets packet before).mono moves
    · exact (sent action emitted packet packed).mono (record.moves (steps.sound sound))

/-- The blank ledger represents a cluster that has not started. -/
theorem simulates_initial (peers : List Nat) :
    Simulates peers (.initial peers) (Ledger.blank : Ledger Nat LogEntry) where
  nodes id _ := {
    id_eq := rfl
    peers_eq := rfl
    term_eq := rfl
    vote_eq := rfl
    log_eq := rfl
    fits := by
      change 1 ≤ vecCapacity
      decide
    saved := ⟨StatePersister.new, rfl, Or.inr ⟨rfl, rfl⟩⟩
    leads := fun leader => by cases leader
    stands := fun candidate => by cases candidate
    next_pos := fun pair member => by cases member
    next_keys := fun leader => by cases leader }
  packets packet member := by cases member
  recorded := by
    rintro node part ⟨_, r, found, _⟩
    cases found

/-- The ledger of a run, in which the ledgers of all moments of the run are
contained. -/
structure Traces (peers : List Nat) (history : List Transition) (config : Configuration)
    (ledger : Ledger Nat LogEntry) : Prop where
  sound : SoundFor peers ledger
  simulates : Simulates peers config ledger
  moments : forall visited, Visits history config visited -> Exists fun earlier =>
    SoundFor peers earlier ∧ Simulates peers visited earlier ∧ Extends earlier ledger

/-- Every run is traced by a ledger. -/
theorem Run.traces (distinct : peers.Nodup) {history : List Transition}
    (run : Run peers history config) : Exists fun ledger => Traces peers history config ledger := by
  induction run with
  | start begins =>
      cases begins
      refine ⟨Ledger.blank, sound_blank, simulates_initial peers, ?_⟩
      rintro visited (final | ⟨_, member, _⟩)
      · rw [final]
        exact ⟨_, sound_blank, simulates_initial peers, .refl _⟩
      · cases member
  | next run stepped inductionHypothesis =>
      rcases inductionHypothesis with ⟨ledger, traces⟩
      rcases traces.simulates.step distinct traces.sound stepped with ⟨later, steps, simulates⟩
      have sound := steps.sound traces.sound
      have grows := (steps.moves traces.sound).toExtends
      refine ⟨later, sound, simulates, ?_⟩
      intro visited visits
      rcases visits_next visits with final | before
      · rw [final]
        exact ⟨later, sound, simulates, .refl _⟩
      · rcases traces.moments visited before with ⟨earlier, earlierSound, represented, contained⟩
        exact ⟨earlier, earlierSound, represented, contained.trans grows⟩

end Runs
end Cluster
end RaftStore
