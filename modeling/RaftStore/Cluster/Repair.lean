import RaftStore.Cluster.Committed

namespace RaftStore
namespace Cluster

open Raft Consensus Systems

/-!
# Repairing a follower

A leader and one follower exchange rounds without loss: the leader replicates,
the follower answers, the leader takes the answer in.  A rejection carries the
end of the follower's log, and the leader's next probe goes right behind that
end, wherever it is.  So there are only three indices at which the two logs can
ever be compared, and a follower is repaired exactly if they meet at one of
them.  Otherwise the rounds repeat the same probe forever.
-/

/-! ## Rounds -/

/-- The reply to a replication request among the actions of a follower. -/
def replyOf : Action -> Option AppendEntriesResponse
  | .sendAppendEntriesResponse _ response => some response
  | _ => none

/-- One lossless round between a leader and a follower. -/
def exchange (leader follower : RaftNode) : Outcome (RaftNode × RaftNode) :=
  match leader.replicateToPeer follower.state.id with
  | some (.sendAppendEntries _ request) => do
      let (follower, actions) <- follower.handleAppendEntries request
      match actions.findSome? replyOf with
      | some response => do
          let (leader, _) <- leader.handleAppendEntriesResponse follower.state.id response
          return (leader, follower)
      | none => return (leader, follower)
  | _ => .ok (leader, follower)

/-- Several rounds in a row. -/
def exchanges : Nat -> RaftNode -> RaftNode -> Outcome (RaftNode × RaftNode)
  | 0, leader, follower => .ok (leader, follower)
  | rounds + 1, leader, follower => do
      let (leader, follower) <- exchange leader follower
      exchanges rounds leader follower

/-- The follower's log agrees with the leader's at every index of the latter. -/
def AgreesWith (leader follower : RaftNode) : Prop :=
  forall position, 1 ≤ position -> position ≤ leader.state.log.lastIndex ->
    follower.state.log.get position = leader.state.log.get position

/-- The follower agrees with the leader after some of the first rounds. -/
def RepairedWithin (bound : Nat) (leader follower : RaftNode) : Prop :=
  Exists fun rounds => rounds ≤ bound ∧ Exists fun leader' => Exists fun follower' =>
    exchanges rounds leader follower = .ok (leader', follower') ∧ AgreesWith leader' follower'

/-- Both logs reach the index and have the same term there. -/
def MeetAt (leader follower : RaftLog) (index : Nat) : Prop :=
  index ≤ leader.lastIndex ∧ index ≤ follower.lastIndex ∧
    leader.termAt index = follower.termAt index

instance (leader follower : RaftLog) (index : Nat) : Decidable (MeetAt leader follower index) :=
  inferInstanceAs (Decidable (_ ∧ _))

/-- The logs meet at the end of the leader's log, at the leader's probe, or at
the end of the follower's log. -/
def Reconcilable (leader follower : RaftLog) (next : Nat) : Prop :=
  MeetAt leader follower leader.lastIndex ∨ MeetAt leader follower (next - 1) ∨
    MeetAt leader follower follower.lastIndex

instance (leader follower : RaftLog) (next : Nat) : Decidable (Reconcilable leader follower next) :=
  inferInstanceAs (Decidable (_ ∨ _))

/-! ## Handlers that return -/

section Returning

variable {node : RaftNode} {body : List LogEntry} {request : AppendEntriesRequest}

/-- Inserting does not panic as long as the result fits into memory. -/
theorem insertEntries_total (holds : node.state.log = ⟨sentinel :: body⟩)
    (inside : request.prevLogIndex ≤ body.length)
    (fits : request.prevLogIndex + request.entries.length + 1 ≤ vecCapacity) :
    Exists fun result => node.insertEntries request = .ok result := by
  have small : request.prevLogIndex + 1 < wordSize := by
    have capacity : vecCapacity < wordSize := by decide
    omega
  have room : request.prevLogIndex + 1 + request.entries.length ≤ vecCapacity := by omega
  rw [RaftNode.insertEntries_eq holds inside small, if_pos room]
  split
  · exact ⟨_, rfl⟩
  · exact ⟨_, rfl⟩

/-- The reply stands behind the applications. -/
theorem findSome_reply {low high recipient : Nat} {response : AppendEntriesResponse} :
    (node.applications low high ++
      [Action.sendAppendEntriesResponse recipient response]).findSome? replyOf =
        some response := by
  rw [List.findSome?_append]
  have silent : (node.applications low high).findSome? replyOf = none := by
    rw [List.findSome?_eq_none_iff]
    intro action member
    rcases RaftNode.mem_applications.mp member with ⟨_, _, _, _, _, _, rfl⟩
    rfl
  rw [silent]
  rfl

/-- An update that succeeds on the value of its key. -/
theorem updateFirst_of_find (update : Nat -> Outcome Nat) {key value next : Nat}
    {pairs : List (Nat × Nat)} (found : pairs.find? (fun pair => pair.1 = key) = some (key, value))
    (computed : update value = .ok next) :
    Exists fun result => updateFirst key update pairs = .ok result ∧
      result.find? (fun pair => pair.1 = key) = some (key, next) := by
  induction pairs with
  | nil => cases found
  | cons head rest inductionHypothesis =>
      rcases head with ⟨id, current⟩
      by_cases here : id = key
      · subst here
        rw [List.find?_cons_of_pos (by simp)] at found
        cases found
        refine ⟨(id, next) :: rest, ?_, by simp⟩
        rw [updateFirst, if_pos rfl, computed]
        rfl
      · rw [List.find?_cons_of_neg (by simpa using here)] at found
        rcases inductionHypothesis found with ⟨result, updated, present⟩
        refine ⟨(id, current) :: result, ?_, ?_⟩
        · rw [updateFirst, if_neg here, updated]
          rfl
        · rw [List.find?_cons_of_neg (by simpa using here)]
          exact present

end Returning

/-! ## One round -/

/-- A leader and a follower with the given logs, the leader's probe being at
`next`. -/
structure Facing (ledger : Ledger Nat LogEntry) (leader follower : RaftNode)
    (own other : List LogEntry) (next : Nat) : Prop where
  leaderLog : leader.state.log = ⟨sentinel :: own⟩
  followerLog : follower.state.log = ⟨sentinel :: other⟩
  ownRooted : Rooted LogEntry.term ledger.reign own
  otherRooted : Rooted LogEntry.term ledger.reign other
  ownFits : own.length + 1 ≤ vecCapacity
  otherFits : other.length + 1 ≤ vecCapacity
  role : leader.state.role = .leader
  current : follower.state.currentTerm ≤ leader.state.currentTerm
  probe : leader.state.nextIndex.find? (fun pair => pair.1 = follower.state.id) =
    some (follower.state.id, next)

section Round

variable {peers : List Nat} {ledger : Ledger Nat LogEntry} {leader follower : RaftNode}
  {own other : List LogEntry} {next : Nat}

/-- The request of a leader whose probe is at `next`. -/
def requestAt (leader : RaftNode) (next : Nat) : AppendEntriesRequest where
  term := leader.state.currentTerm
  leaderId := leader.state.id
  prevLogIndex := next - 1
  prevLogTerm := leader.state.log.termAt (next - 1)
  entries := leader.state.log.entriesFrom next
  leaderCommit := leader.state.commitIndex

theorem Facing.replicateToPeer (facing : Facing ledger leader follower own other next) :
    leader.replicateToPeer follower.state.id =
      some (.sendAppendEntries follower.state.id (requestAt leader next)) := by
  have same : (if next > 0 then next - 1 else 0) = next - 1 := by
    split <;> omega
  rw [RaftNode.replicateToPeer, facing.probe, Option.map_some]
  simp only [same]
  rfl

theorem Facing.lastIndex_leader (facing : Facing ledger leader follower own other next) :
    leader.state.log.lastIndex = own.length := by
  rw [RaftLog.lastIndex_eq_length_body, facing.leaderLog, RaftLog.body_mk]

theorem Facing.lastIndex_follower (facing : Facing ledger leader follower own other next) :
    follower.state.log.lastIndex = other.length := by
  rw [RaftLog.lastIndex_eq_length_body, facing.followerLog, RaftLog.body_mk]

/-- The entries of a rooted log have positive terms. -/
theorem termAt_pos (sound : SoundFor peers ledger) {log : RaftLog} {body : List LogEntry}
    (holds : log = ⟨sentinel :: body⟩) (rooted : Rooted LogEntry.term ledger.reign body)
    {index : Nat} (positive : 0 < index) (inside : index ≤ body.length) : 0 < log.termAt index := by
  rw [termAt_eq_lastTerm holds inside]
  rcases eq_nil_or_endsIn LogEntry.term (body.take index) with empty | ⟨init, last, equal, same⟩
  · have length := List.length_take_of_le inside
    rw [empty, List.length_nil] at length
    omega
  · rw [← same]
    exact sound.term_pos_of_rooted (rooted.of_isPrefix (List.take_prefix index body))
      (by rw [equal]; simp)

/-- The two sides of a round, put together. -/
theorem exchange_eq_ok {request : AppendEntriesRequest} {response : AppendEntriesResponse}
    {leader' follower' : RaftNode} {actions ignored : List Action}
    (sent : leader.replicateToPeer follower.state.id =
      some (.sendAppendEntries follower.state.id request))
    (handled : follower.handleAppendEntries request = .ok (follower', actions))
    (replied : actions.findSome? replyOf = some response)
    (sameId : follower'.state.id = follower.state.id)
    (answered : leader.handleAppendEntriesResponse follower.state.id response =
      .ok (leader', ignored)) : exchange leader follower = .ok (leader', follower') := by
  rw [← sameId] at answered
  unfold exchange
  rw [sent]
  refine Outcome.bind_eq_ok.mpr ⟨_, handled, ?_⟩
  simp only [replied]
  exact Outcome.bind_eq_ok.mpr ⟨_, answered, rfl⟩

/-- Recording a match moves the probe right behind the reported index. -/
theorem Facing.recordMatch (facing : Facing ledger leader follower own other next) {reported : Nat}
    (added : checkedAdd reported 1 = .ok (reported + 1)) :
    Exists fun matchIndex => Exists fun nextIndex =>
      leader.recordMatch follower.state.id (some reported) =
        .ok { leader with state := { leader.state with
          matchIndex := matchIndex, nextIndex := nextIndex } } ∧
      nextIndex.find? (fun pair => pair.1 = follower.state.id) =
        some (follower.state.id, reported + 1) := by
  rcases RaftNode.exists_updateFirst follower.state.id (fun _ => ⟨reported, rfl⟩)
    leader.state.matchIndex with ⟨matchIndex, matched⟩
  rcases updateFirst_of_find (fun _ => checkedAdd reported 1) facing.probe added with
    ⟨nextIndex, moved, found⟩
  exact ⟨matchIndex, nextIndex,
    Outcome.bind_eq_ok.mpr ⟨_, matched, Outcome.bind_eq_ok.mpr ⟨_, moved, rfl⟩⟩, found⟩

/-- So does a rejection that carries an index. -/
theorem Facing.recordRejection (facing : Facing ledger leader follower own other next)
    {reported : Nat} (added : checkedAdd reported 1 = .ok (reported + 1)) :
    Exists fun nextIndex =>
      leader.recordRejection follower.state.id (some reported) =
        .ok { leader with state := { leader.state with nextIndex := nextIndex } } ∧
      nextIndex.find? (fun pair => pair.1 = follower.state.id) =
        some (follower.state.id, reported + 1) := by
  rcases updateFirst_of_find (RaftNode.backUp (some reported)) facing.probe added with
    ⟨nextIndex, moved, found⟩
  exact ⟨nextIndex, Outcome.bind_eq_ok.mpr ⟨_, moved, rfl⟩, found⟩

/-- Whatever the follower answers with the index `reported`, the leader stays
leader with its log, and probes right behind that index. -/
theorem Facing.answer (facing : Facing ledger leader follower own other next) {term reported : Nat}
    (success : Bool) (bound : term ≤ leader.state.currentTerm) (small : reported + 1 < wordSize) :
    Exists fun leader' => Exists fun ignored =>
      leader.handleAppendEntriesResponse follower.state.id ⟨term, success, some reported⟩ =
        .ok (leader', ignored) ∧
      leader'.state.log = leader.state.log ∧ leader'.state.role = leader.state.role ∧
      leader'.state.currentTerm = leader.state.currentTerm ∧
      leader'.state.nextIndex.find? (fun pair => pair.1 = follower.state.id) =
        some (follower.state.id, reported + 1) := by
  have added : checkedAdd reported 1 = .ok (reported + 1) := checkedAdd_eq_ok.mpr ⟨small, rfl⟩
  unfold RaftNode.handleAppendEntriesResponse
  rw [if_neg (not_not.mpr facing.role), if_neg (Nat.not_lt_of_le bound)]
  cases success with
  | true =>
      rcases facing.recordMatch added with ⟨matchIndex, nextIndex, recorded, found⟩
      rcases RaftNode.maybeAdvanceCommitIndex_shape { leader with state := { leader.state with
        matchIndex := matchIndex, nextIndex := nextIndex } } with ⟨_, _, _, _, advanced⟩
      rw [if_pos rfl]
      refine ⟨_, _, Outcome.bind_eq_ok.mpr ⟨_, recorded, congrArg Except.ok advanced⟩, ?_⟩
      exact ⟨rfl, rfl, rfl, found⟩
  | false =>
      rcases facing.recordRejection added with ⟨nextIndex, recorded, found⟩
      rw [if_neg (by simp)]
      exact ⟨_, _, Outcome.bind_eq_ok.mpr ⟨_, recorded, rfl⟩, rfl, rfl, rfl, found⟩

/-- The follower that has recognised the leader. -/
theorem Facing.acceptLeader (facing : Facing ledger leader follower own other next) :
    (follower.acceptLeader (requestAt leader next)).state.currentTerm =
        leader.state.currentTerm ∧
      (follower.acceptLeader (requestAt leader next)).state.id = follower.state.id ∧
      (follower.acceptLeader (requestAt leader next)).state.log = follower.state.log := by
  refine ⟨?_, by simp, by simp⟩
  rw [RaftNode.acceptLeader_state, RaftState.becomeFollower_currentTerm]
  exact Nat.max_eq_right facing.current

/-- A round in which the logs meet at the probe repairs the follower. -/
theorem Facing.exchange_of_meet (facing : Facing ledger leader follower own other next)
    (positive : 0 < next) (meet : MeetAt leader.state.log follower.state.log (next - 1)) :
    Exists fun leader' => Exists fun follower' =>
      exchange leader follower = .ok (leader', follower') ∧
      leader'.state.log = leader.state.log ∧ own <+: follower'.state.log.body := by
  rcases meet with ⟨inOwn, inOther, sameTerm⟩
  rw [facing.lastIndex_leader] at inOwn
  rw [facing.lastIndex_follower] at inOther
  have entries : (requestAt leader next).entries = own.drop (next - 1) := by
    obtain ⟨prev, rfl⟩ : Exists fun prev => next = prev + 1 := ⟨next - 1, by omega⟩
    change leader.state.log.entriesFrom (prev + 1) = _
    rw [RaftLog.entriesFrom_succ, facing.leaderLog, RaftLog.body_mk, Nat.add_sub_cancel]
  have sameTake : own.take (next - 1) = other.take (next - 1) := by
    apply eq_of_lastTerm (facing.ownRooted.of_isPrefix (List.take_prefix _ _))
      (facing.otherRooted.of_isPrefix (List.take_prefix _ _))
    · rw [List.length_take_of_le inOwn, List.length_take_of_le inOther]
    · rw [← termAt_eq_lastTerm facing.leaderLog inOwn, sameTerm,
        termAt_eq_lastTerm facing.followerLog inOther]
  have spliced : splice other (next - 1) (own.drop (next - 1)) = overlay own other := by
    have length := List.length_take_of_le inOwn
    have rooted : Rooted LogEntry.term ledger.reign
        (own.take (next - 1) ++ own.drop (next - 1)) := by
      rw [List.take_append_drop]
      exact facing.ownRooted
    have overlaid := splice_eq_overlay facing.otherRooted rooted (by rw [length, sameTake])
    rw [length, List.take_append_drop] at overlaid
    exact overlaid
  rcases facing.acceptLeader with ⟨acceptedTerm, acceptedId, acceptedLog⟩
  have accepted := acceptedLog.trans facing.followerLog
  have fits : (requestAt leader next).prevLogIndex + (requestAt leader next).entries.length + 1 ≤
      vecCapacity := by
    have capacity := facing.ownFits
    rw [entries, List.length_drop]
    change next - 1 + (own.length - (next - 1)) + 1 ≤ vecCapacity
    omega
  rcases insertEntries_total accepted inOther fits with ⟨inserted, ok⟩
  have insertedLog : inserted.state.log = ⟨sentinel :: overlay own other⟩ ∧
      inserted.state.currentTerm = leader.state.currentTerm ∧
      inserted.state.id = follower.state.id := by
    rcases RaftNode.insertEntries_eq_ok accepted inOther ok with ⟨_, _, rfl⟩ | ⟨_, same, rfl⟩
    · rw [entries]
      exact ⟨congrArg (fun body => RaftLog.mk (sentinel :: body)) spliced, acceptedTerm, acceptedId⟩
    · rw [entries] at same
      rw [← spliced]
      exact ⟨by rw [accepted]; exact congrArg (fun body => RaftLog.mk (sentinel :: body)) same.symm,
        acceptedTerm, acceptedId⟩
  rcases insertedLog with ⟨newLog, newTerm, newId⟩
  rcases inserted.followCommit_shape (requestAt leader next).leaderCommit with
    ⟨_, _, _, _, followed⟩
  have handled := RaftNode.handleAppendEntries_of_match facing.current sameTerm.symm ok
  rw [followed] at handled
  have small : (overlay own other).length + 1 < wordSize := by
    have capacity : vecCapacity < wordSize := by decide
    have first := facing.ownFits
    have second := facing.otherFits
    unfold overlay
    split <;> omega
  have lastIndex : inserted.state.log.lastIndex = (overlay own other).length := by
    rw [RaftLog.lastIndex_eq_length_body, newLog, RaftLog.body_mk]
  rw [← lastIndex] at small
  rcases facing.answer true (Nat.le_of_eq newTerm) small with ⟨leader', _, answered, sameLog, _⟩
  refine ⟨leader', _,
    exchange_eq_ok facing.replicateToPeer handled findSome_reply newId answered, sameLog, ?_⟩
  change own <+: inserted.state.log.body
  rw [newLog, RaftLog.body_mk]
  exact isPrefix_overlay own other

/-- The follower's term after any round is the leader's, and its log is kept if
nothing is inserted. -/
theorem Facing.stuck (facing : Facing ledger leader follower own other next)
    {leader' follower' : RaftNode} (leaderLog : leader'.state.log = leader.state.log)
    (leaderRole : leader'.state.role = leader.state.role)
    (leaderTerm : leader'.state.currentTerm = leader.state.currentTerm)
    (followerLog : follower'.state.log = follower.state.log)
    (followerTerm : follower'.state.currentTerm = leader.state.currentTerm)
    (followerId : follower'.state.id = follower.state.id)
    (probe : leader'.state.nextIndex.find? (fun pair => pair.1 = follower.state.id) =
      some (follower.state.id, other.length + 1)) :
    Facing ledger leader' follower' own other (other.length + 1) where
  leaderLog := leaderLog.trans facing.leaderLog
  followerLog := followerLog.trans facing.followerLog
  ownRooted := facing.ownRooted
  otherRooted := facing.otherRooted
  ownFits := facing.ownFits
  otherFits := facing.otherFits
  role := leaderRole.trans facing.role
  current := by rw [followerTerm, leaderTerm]
  probe := by
    rw [followerId]
    exact probe

/-- A round in which the logs do not meet at the probe changes neither log, and
the next probe is right behind the end of the follower's log. -/
theorem Facing.exchange_of_not_meet (facing : Facing ledger leader follower own other next)
    (sound : SoundFor peers ledger) (positive : 0 < next)
    (apart : ¬ MeetAt leader.state.log follower.state.log (next - 1)) :
    Exists fun leader' => Exists fun follower' =>
      exchange leader follower = .ok (leader', follower') ∧
      Facing ledger leader' follower' own other (other.length + 1) := by
  have small : follower.state.log.lastIndex + 1 < wordSize := by
    have capacity : vecCapacity < wordSize := by decide
    have fits := facing.otherFits
    rw [facing.lastIndex_follower]
    omega
  rcases facing.acceptLeader with ⟨newTerm, newId, newLog⟩
  by_cases passes : follower.state.log.termAt (next - 1) = leader.state.log.termAt (next - 1)
  · -- the check passes because neither log reaches the probe
    have beyond : own.length < next - 1 ∧ other.length < next - 1 := by
      have zeroOwn : own.length < next - 1 -> leader.state.log.termAt (next - 1) = 0 := by
        intro outside
        exact RaftLog.termAt_of_gt (by rw [facing.lastIndex_leader]; exact outside)
      have zeroOther : other.length < next - 1 -> follower.state.log.termAt (next - 1) = 0 := by
        intro outside
        exact RaftLog.termAt_of_gt (by rw [facing.lastIndex_follower]; exact outside)
      by_contra inside
      by_cases inOwn : next - 1 ≤ own.length
      · by_cases inOther : next - 1 ≤ other.length
        · apply apart
          exact ⟨by rw [facing.lastIndex_leader]; exact inOwn,
            by rw [facing.lastIndex_follower]; exact inOther, passes.symm⟩
        · have some := termAt_pos sound facing.leaderLog facing.ownRooted (by omega) inOwn
          have none := zeroOther (by omega)
          omega
      · have inOther : next - 1 ≤ other.length := by omega
        have some := termAt_pos sound facing.followerLog facing.otherRooted (by omega) inOther
        have none := zeroOwn (by omega)
        omega
    have empty : (requestAt leader next).entries = [] := by
      obtain ⟨prev, rfl⟩ : Exists fun prev => next = prev + 1 := ⟨next - 1, by omega⟩
      change leader.state.log.entriesFrom (prev + 1) = []
      rw [RaftLog.entriesFrom_succ, facing.leaderLog, RaftLog.body_mk]
      exact List.drop_eq_nil_of_le (by omega)
    have ok := (follower.acceptLeader (requestAt leader next)).insertEntries_of_empty empty
    rcases (follower.acceptLeader (requestAt leader next)).followCommit_shape
      (requestAt leader next).leaderCommit with ⟨_, _, _, _, followed⟩
    have handled := RaftNode.handleAppendEntries_of_match facing.current passes ok
    rw [followed] at handled
    rw [← newLog] at small
    rcases facing.answer true (Nat.le_of_eq newTerm) small with
      ⟨leader', _, answered, sameLog, sameRole, sameTerm, found⟩
    rw [newLog, facing.lastIndex_follower] at found
    exact ⟨leader', _,
      exchange_eq_ok facing.replicateToPeer handled findSome_reply newId answered,
      facing.stuck sameLog sameRole sameTerm newLog newTerm newId found⟩
  · have handled : follower.handleAppendEntries (requestAt leader next) = _ :=
      RaftNode.handleAppendEntries_of_mismatch facing.current passes
    rcases facing.answer false (Nat.le_refl leader.state.currentTerm) small with
      ⟨leader', _, answered, sameLog, sameRole, sameTerm, found⟩
    rw [facing.lastIndex_follower] at found
    exact ⟨leader', _, exchange_eq_ok facing.replicateToPeer handled rfl newId answered,
      facing.stuck sameLog sameRole sameTerm newLog newTerm newId found⟩

/-! ## Several rounds -/

/-- A follower whose log extends the leader's agrees with it. -/
theorem agreesWith_of_isPrefix (leaderLog : leader.state.log = ⟨sentinel :: own⟩)
    (begins : own <+: follower.state.log.body) : AgreesWith leader follower := by
  intro position positive inside
  obtain ⟨index, rfl⟩ : Exists fun index => position = index + 1 := ⟨position - 1, by omega⟩
  rw [RaftLog.lastIndex_eq_length_body, leaderLog, RaftLog.body_mk] at inside
  have below : index < own.length := inside
  rw [RaftLog.get_succ, RaftLog.get_succ, leaderLog, RaftLog.body_mk,
    List.getElem?_eq_getElem below]
  exact List.prefix_iff_getElem?.mp begins index below

/-- Logs that agree meet at the end of the leader's. -/
theorem Facing.meet_of_agreesWith (facing : Facing ledger leader follower own other next)
    (agrees : AgreesWith leader follower) :
    MeetAt leader.state.log follower.state.log leader.state.log.lastIndex := by
  refine ⟨Nat.le_refl _, ?_⟩
  rw [facing.lastIndex_leader, facing.lastIndex_follower]
  cases length : own.length with
  | zero =>
      rw [facing.leaderLog, facing.followerLog]
      exact ⟨Nat.zero_le _, rfl⟩
  | succ index =>
      have same := agrees (index + 1) (Nat.succ_pos _) (by rw [facing.lastIndex_leader, length])
      rw [RaftLog.get_succ, RaftLog.get_succ, facing.leaderLog, facing.followerLog, RaftLog.body_mk,
        RaftLog.body_mk] at same
      have present : own[index]? = some (own[index]) := List.getElem?_eq_getElem (by omega)
      rw [RaftLog.termAt_succ, RaftLog.termAt_succ, facing.leaderLog, facing.followerLog,
        RaftLog.body_mk, RaftLog.body_mk, same]
      rw [present] at same
      exact ⟨(List.getElem?_eq_some_iff.mp same).1, rfl⟩

/-- A follower that agrees at the leader's last index needs no round. -/
theorem Facing.agreesWith_of_meet (facing : Facing ledger leader follower own other next)
    (meet : MeetAt leader.state.log follower.state.log leader.state.log.lastIndex) :
    AgreesWith leader follower := by
  rcases meet with ⟨_, inside, sameTerm⟩
  rw [facing.lastIndex_leader] at inside sameTerm
  rw [facing.lastIndex_follower] at inside
  apply agreesWith_of_isPrefix facing.leaderLog
  have same : own.take own.length = other.take own.length := by
    apply eq_of_lastTerm (facing.ownRooted.of_isPrefix (List.take_prefix _ _))
      (facing.otherRooted.of_isPrefix (List.take_prefix _ _))
    · rw [List.length_take_of_le (Nat.le_refl _), List.length_take_of_le inside]
    · rw [← termAt_eq_lastTerm facing.leaderLog (Nat.le_refl _), sameTerm,
        termAt_eq_lastTerm facing.followerLog inside]
  rw [List.take_length] at same
  rw [facing.followerLog, RaftLog.body_mk, same]
  exact List.take_prefix _ _

/-- A follower whose log meets the leader's at one of the three indices is
repaired after two rounds at most. -/
theorem Facing.repairedWithin (facing : Facing ledger leader follower own other next)
    (sound : SoundFor peers ledger) (positive : 0 < next)
    (reconcilable : Reconcilable leader.state.log follower.state.log next) {bound : Nat}
    (enough : 2 ≤ bound) : RepairedWithin bound leader follower := by
  have repaired : forall {leader' follower' : RaftNode},
      leader'.state.log = leader.state.log -> own <+: follower'.state.log.body ->
      AgreesWith leader' follower' := by
    intro leader' follower' sameLog begins
    exact agreesWith_of_isPrefix (sameLog.trans facing.leaderLog) begins
  by_cases now : MeetAt leader.state.log follower.state.log leader.state.log.lastIndex
  · exact ⟨0, Nat.zero_le _, leader, follower, rfl, facing.agreesWith_of_meet now⟩
  · by_cases first : MeetAt leader.state.log follower.state.log (next - 1)
    · rcases facing.exchange_of_meet positive first with
        ⟨leader', follower', exchanged, sameLog, begins⟩
      exact ⟨1, by omega, leader', follower',
        Outcome.bind_eq_ok.mpr ⟨_, exchanged, rfl⟩, repaired sameLog begins⟩
    · have second : MeetAt leader.state.log follower.state.log follower.state.log.lastIndex := by
        rcases reconcilable with last | probe | length
        · exact absurd last now
        · exact absurd probe first
        · exact length
      rcases facing.exchange_of_not_meet sound positive first with
        ⟨leader', follower', exchanged, stuck⟩
      have again : MeetAt leader'.state.log follower'.state.log (other.length + 1 - 1) := by
        rw [stuck.leaderLog, stuck.followerLog, ← facing.leaderLog, ← facing.followerLog,
          Nat.add_sub_cancel, ← facing.lastIndex_follower]
        exact second
      rcases stuck.exchange_of_meet (Nat.succ_pos _) again with
        ⟨last, final, exchangedAgain, sameLog, begins⟩
      refine ⟨2, enough, last, final, ?_, ?_⟩
      · exact Outcome.bind_eq_ok.mpr ⟨_, exchanged,
          Outcome.bind_eq_ok.mpr ⟨_, exchangedAgain, rfl⟩⟩
      · exact repaired (sameLog.trans (stuck.leaderLog.trans facing.leaderLog.symm)) begins

/-- A follower whose log meets the leader's at none of the three indices is
never repaired. -/
theorem Facing.never_agreesWith (sound : SoundFor peers ledger) (rounds : Nat) :
    forall {leader follower leader' follower' : RaftNode} {next : Nat},
      Facing ledger leader follower own other next -> 0 < next ->
      ¬ Reconcilable leader.state.log follower.state.log next ->
      exchanges rounds leader follower = .ok (leader', follower') ->
      ¬ AgreesWith leader' follower' := by
  induction rounds with
  | zero =>
      intro leader follower leader' follower' next facing _ apart exchanged agrees
      cases exchanged
      exact apart (Or.inl (facing.meet_of_agreesWith agrees))
  | succ rounds inductionHypothesis =>
      intro leader follower leader' follower' next facing positive apart exchanged
      rcases Outcome.bind_eq_ok.mp exchanged with ⟨⟨middle, answering⟩, first, rest⟩
      rcases facing.exchange_of_not_meet sound positive (fun meet => apart (Or.inr (Or.inl meet)))
        with ⟨stuckLeader, stuckFollower, same, stuck⟩
      rw [first] at same
      cases same
      refine inductionHypothesis stuck (Nat.succ_pos _) ?_ rest
      rw [stuck.leaderLog, stuck.followerLog, ← facing.leaderLog, ← facing.followerLog]
      rintro (last | probe | length)
      · exact apart (Or.inl last)
      · rw [Nat.add_sub_cancel, ← facing.lastIndex_follower] at probe
        exact apart (Or.inr (Or.inr probe))
      · exact apart (Or.inr (Or.inr length))

end Round

/-! ## Reachable states -/

section Reachable

variable {peers : List Nat} {history : List Transition} {final : Configuration}
  {leader follower : Nat}

/-- A leader and another node of a reachable configuration face each other. -/
theorem Run.facing (distinct : peers.Nodup) (run : Run peers history final)
    (leaderMember : leader ∈ peers) (followerMember : follower ∈ peers)
    (different : follower ≠ leader) (role : (final.nodes leader).state.role = .leader)
    (current : (final.nodes follower).state.currentTerm ≤ (final.nodes leader).state.currentTerm) :
    Exists fun ledger => Exists fun next => SoundFor peers ledger ∧
      Facing ledger (final.nodes leader) (final.nodes follower) (ledger.log leader)
        (ledger.log follower) next ∧
      (follower, next) ∈ (final.nodes leader).state.nextIndex ∧ 0 < next := by
  rcases run.traces distinct with ⟨ledger, traces⟩
  have represents := traces.simulates.nodes leader leaderMember
  have represents' := traces.simulates.nodes follower followerMember
  have listed : follower ∈ (final.nodes leader).state.nextIndex.map Prod.fst := by
    rw [represents.next_keys role, RaftState.otherPeers, represents.peers_eq, represents.id_eq]
    exact List.mem_filter.mpr ⟨followerMember, by simpa using different⟩
  rcases List.mem_map.mp listed with ⟨pair, member, key⟩
  have present : ((final.nodes leader).state.nextIndex.find?
      (fun pair => pair.1 = follower)).isSome := by
    rw [List.find?_isSome]
    exact ⟨pair, member, by simpa using key⟩
  rcases Option.isSome_iff_exists.mp present with ⟨⟨id, next⟩, found⟩
  have same : id = follower := by simpa using List.find?_some found
  subst same
  have probed := List.mem_of_find?_eq_some found
  have ownFits := represents.fits
  have otherFits := represents'.fits
  rw [represents.log_eq] at ownFits
  rw [represents'.log_eq] at otherFits
  refine ⟨ledger, next, traces.sound, ?_, probed, represents.next_pos _ probed⟩
  exact {
    leaderLog := represents.log_eq
    followerLog := represents'.log_eq
    ownRooted := traces.sound.log_rooted leader
    otherRooted := traces.sound.log_rooted id
    ownFits := ownFits
    otherFits := otherFits
    role := role
    current := current
    probe := by
      rw [represents'.id_eq]
      exact found }

/-- **Repair.**  A follower of a reachable configuration is repaired within the
given number of rounds exactly if its log meets the leader's at the leader's
last index, at the leader's probe, or at its own last index. -/
theorem repaired_iff_reconcilable (distinct : peers.Nodup) (run : Run peers history final)
    (leaderMember : leader ∈ peers) (followerMember : follower ∈ peers)
    (different : follower ≠ leader) (role : (final.nodes leader).state.role = .leader)
    (current : (final.nodes follower).state.currentTerm ≤ (final.nodes leader).state.currentTerm) :
    Exists fun next => (follower, next) ∈ (final.nodes leader).state.nextIndex ∧
      (RepairedWithin ((final.nodes leader).state.log.lastIndex +
          (final.nodes follower).state.log.lastIndex + 2)
        (final.nodes leader) (final.nodes follower) <->
      Reconcilable (final.nodes leader).state.log (final.nodes follower).state.log next) := by
  rcases run.facing distinct leaderMember followerMember different role current with
    ⟨ledger, next, sound, facing, probed, positive⟩
  refine ⟨next, probed, ?_, ?_⟩
  · rintro ⟨rounds, _, leader', follower', exchanged, agrees⟩
    by_contra apart
    exact Facing.never_agreesWith sound rounds facing positive apart exchanged agrees
  · intro reconcilable
    exact facing.repairedWithin sound positive reconcilable (Nat.le_add_left _ _)

set_option maxRecDepth 100000 in
/-- In the schedule with two leaders, node 3 has an empty log and is repaired by
node 2. -/
theorem repaired_succession :
    Exists fun history => Exists fun final => Run [1, 2, 3] history final ∧
      (final.nodes 2).state.role = .leader ∧ (final.nodes 2).state.log.lastIndex = 1 ∧
      (final.nodes 3).state.log.lastIndex = 0 ∧
      RepairedWithin 3 (final.nodes 2) (final.nodes 3) := by
  have checked : (execute [1, 2, 3] succession).any (fun result =>
      decide ((result.2.nodes 2).state.role = .leader ∧
        (result.2.nodes 3).state.currentTerm ≤ (result.2.nodes 2).state.currentTerm ∧
        (result.2.nodes 2).state.log.lastIndex = 1 ∧
        (result.2.nodes 3).state.log.lastIndex = 0 ∧
        (result.2.nodes 2).state.log.termAt 0 = (result.2.nodes 3).state.log.termAt 0)) = true := by
    decide +kernel
  rcases exists_run checked with ⟨history, final, run, holds⟩
  rcases of_decide_eq_true holds with ⟨role, current, own, empty, meet⟩
  refine ⟨history, final, run, role, own, empty, ?_⟩
  rcases repaired_iff_reconcilable (by decide) run (by decide) (by decide) (by decide) role current
    with ⟨next, _, repaired⟩
  simp only at own empty meet
  rw [own, empty] at repaired
  apply repaired.mpr
  refine Or.inr (Or.inr ?_)
  rw [empty]
  exact ⟨Nat.zero_le _, Nat.zero_le _, meet⟩

set_option maxRecDepth 100000 in
/-- After the takeover, node 1 leads with one entry and node 2 has another one
in its place.  Node 1 never repairs node 2. -/
theorem not_repaired_takeover :
    ¬ forall history final, Run [1, 2, 3] history final -> forall leader follower,
      leader ∈ [1, 2, 3] -> follower ∈ [1, 2, 3] -> follower ≠ leader ->
      (final.nodes leader).state.role = .leader ->
      (final.nodes follower).state.currentTerm ≤ (final.nodes leader).state.currentTerm ->
      RepairedWithin ((final.nodes leader).state.log.lastIndex +
          (final.nodes follower).state.log.lastIndex + 2)
        (final.nodes leader) (final.nodes follower) := by
  intro always
  have checked : (execute [1, 2, 3] takeover).any (fun result =>
      decide ((result.2.nodes 1).state.role = .leader ∧
        (result.2.nodes 2).state.currentTerm ≤ (result.2.nodes 1).state.currentTerm ∧
        forall pair, pair ∈ (result.2.nodes 1).state.nextIndex -> pair.1 = 2 ->
          ¬ Reconcilable (result.2.nodes 1).state.log (result.2.nodes 2).state.log pair.2)) =
      true := by decide +kernel
  rcases exists_run checked with ⟨history, final, run, holds⟩
  rcases of_decide_eq_true holds with ⟨role, current, apart⟩
  rcases run.facing (by decide) (by decide) (by decide) (by decide) role current with
    ⟨ledger, next, sound, facing, probed, positive⟩
  rcases always history final run 1 2 (by decide) (by decide) (by decide) role current with
    ⟨rounds, _, leader', follower', exchanged, agrees⟩
  exact Facing.never_agreesWith sound rounds facing positive (apart _ probed rfl) exchanged agrees

end Reachable
end Cluster
end RaftStore
