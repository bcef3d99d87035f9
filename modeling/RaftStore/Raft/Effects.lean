import RaftStore.Raft.Handlers
import Mathlib.Data.List.TakeWhile

namespace RaftStore
namespace Raft

/-!
# What a call does to the log and to the state machine

For each handler: how it changes the log, and which commands it hands to the
state machine.  Nothing is assumed of the node or of the message.
-/

/-- The command an action applies, if it is an application. -/
def commandOf : Action -> Option LogCommand
  | .applyEntry _ command => some command
  | _ => none

/-- The commands that actions apply, in their order. -/
def commandsOf (actions : List Action) : List LogCommand := actions.filterMap commandOf

/-- The index and the command that an action applies, if it is an application. -/
def applicationOf : Action -> Option (Nat × LogCommand)
  | .applyEntry index command => some (index, command)
  | _ => none

/-- What actions apply, in their order. -/
def applicationsOf (actions : List Action) : List (Nat × LogCommand) :=
  actions.filterMap applicationOf

/-- The action applies no entry behind an index. -/
def upTo (last : Nat) : Action -> Bool
  | .applyEntry index _ => index ≤ last
  | _ => true

namespace RaftNode

section Log

variable {node after : RaftNode} {actions : List Action}

/-! ## The log -/

theorem startElection_log (started : node.startElection = .ok (after, actions)) :
    after.state.log = node.state.log := by
  rcases startElection_eq_ok.mp started with ⟨_, result⟩
  split at result <;> cases result <;> rfl

theorem tick_log (ticked : node.tick = .ok (after, actions)) :
    after.state.log = node.state.log := by
  rcases tick_cases ticked with ⟨_, rfl, _⟩ | ⟨_, _, rfl, _⟩ | ⟨_, _, started⟩
  · rfl
  · rfl
  · exact startElection_log started

theorem handleRequestVote_log (node : RaftNode) (request : RequestVoteRequest) :
    (node.handleRequestVote request).1.state.log = node.state.log := by
  rcases node.handleRequestVote_cases request with ⟨_, equal⟩ | ⟨_, _, _, equal⟩ | ⟨_, _, equal⟩
  · rw [equal]
  · rw [equal]
    exact raiseTerm_log node request.term
  · rw [equal]
    exact raiseTerm_log node request.term

theorem handleRequestVoteResponse_log (node : RaftNode) (sender : Nat)
    (response : RequestVoteResponse) :
    (node.handleRequestVoteResponse sender response).1.state.log = node.state.log := by
  rcases node.handleRequestVoteResponse_cases sender response with
    equal | ⟨_, _, equal⟩ | ⟨_, _, equal⟩
  · rw [equal]
  · rw [equal]
    simp
  · have counted : (node.countVote sender response).state.log = node.state.log := by
      rw [countVote_state]
    rw [equal]
    split <;> exact counted

theorem handleAppendEntriesResponse_log {sender : Nat} {response : AppendEntriesResponse}
    (handled : node.handleAppendEntriesResponse sender response = .ok (after, actions)) :
    after.state.log = node.state.log := by
  rcases handleAppendEntriesResponse_cases handled with
    ⟨_, rfl, _⟩ | ⟨_, _, rfl, _⟩ | ⟨_, _, _, recorded, ok, equal⟩ | ⟨_, _, _, ok, _⟩
  · rfl
  · simp
  · rcases recordMatch_eq_ok ok with ⟨matchIndex, nextIndex, rfl, _⟩
    rcases maybeAdvanceCommitIndex_shape { node with state := { node.state with
      matchIndex := matchIndex, nextIndex := nextIndex } } with ⟨_, _, _, _, advanced⟩
    rw [advanced] at equal
    cases equal
    rfl
  · rcases recordRejection_eq_ok ok with ⟨nextIndex, rfl, _⟩
    rfl

/-- A proposal adds one entry of the current term, or nothing. -/
theorem propose_log {command : LogCommand} {emitted : Option (List Action)}
    (proposed : node.propose command = .ok (after, emitted)) :
    (emitted = none ∧ after = node) ∨
    (Exists fun actions => emitted = some actions ∧ after.state.log =
      ⟨node.state.log.entries ++ [⟨node.state.currentTerm, command⟩]⟩) := by
  rcases propose_cases proposed with ⟨_, rfl, rfl⟩ | ⟨_, _, rfl, rfl⟩
  · exact Or.inl ⟨rfl, rfl⟩
  · refine Or.inr ⟨_, rfl, ?_⟩
    rcases (node.withEntry command).maybeAdvanceCommitIndex_shape with ⟨_, _, _, _, advanced⟩
    rw [advanced]
    rfl

/-- The request has an entry at or below an index of the log whose term is not
the one the log has there. -/
def Conflicts (log : RaftLog) (request : AppendEntriesRequest) (index : Nat) : Prop :=
  Exists fun offset => offset < request.entries.length ∧
    request.prevLogIndex + 1 + offset ≤ index ∧
    request.entries[offset]?.map LogEntry.term ≠
      some (log.termAt (request.prevLogIndex + 1 + offset))

instance (log : RaftLog) (request : AppendEntriesRequest) (index : Nat) :
    Decidable (Conflicts log request index) :=
  inferInstanceAs (Decidable (Exists fun _ => _ ∧ _))

/-- The scan leaves the log alone up to an index without a conflict. -/
theorem get_scanConflicts {log : RaftLog} {entries : List LogEntry} {start index : Nat}
    (inside : index < log.entries.length)
    (agree : forall offset entry, entries[offset]? = some entry -> start + offset ≤ index ->
      log.termAt (start + offset) = entry.term) :
    index < (scanConflicts log start entries).1.entries.length ∧
      forall position, position ≤ index ->
        (scanConflicts log start entries).1.get position = log.get position := by
  induction entries generalizing start with
  | nil => exact ⟨inside, fun _ _ => rfl⟩
  | cons entry rest inductionHypothesis =>
      simp only [scanConflicts]
      split
      · exact ⟨inside, fun _ _ => rfl⟩
      · split
        · next conflict =>
            have beyond : index < start := by
              by_contra within
              exact conflict (agree 0 entry rfl (Nat.le_of_not_lt within))
            unfold RaftLog.truncateFrom
            split
            · refine ⟨by rw [List.length_take]; omega, fun position below => ?_⟩
              exact List.getElem?_take_of_lt (Nat.lt_of_le_of_lt below beyond)
            · exact ⟨inside, fun _ _ => rfl⟩
        · apply inductionHypothesis
          intro offset other listed below
          have shifted : start + 1 + offset = start + (offset + 1) := by omega
          rw [shifted] at below ⊢
          exact agree (offset + 1) other listed below

/-- An insertion leaves the log alone up to an index without a conflict. -/
theorem get_insertEntries {request : AppendEntriesRequest}
    (ok : node.insertEntries request = .ok after) {index : Nat}
    (inside : index < node.state.log.entries.length)
    (agree : ¬ Conflicts node.state.log request index) {position : Nat} (below : position ≤ index) :
    after.state.log.get position = node.state.log.get position := by
  unfold insertEntries at ok
  split at ok
  · cases ok
    rfl
  · rcases Outcome.bind_eq_ok.mp ok with ⟨firstIndex, added, rest⟩
    rcases checkedAdd_eq_ok.mp added with ⟨_, rfl⟩
    have scanned := get_scanConflicts inside (fun offset entry listed low => by
      by_contra different
      refine agree ⟨offset, (List.getElem?_eq_some_iff.mp listed).1, low, ?_⟩
      rw [listed]
      exact fun same => different (Option.some.inj same).symm)
    simp only at rest
    split at rest
    · cases rest
      exact scanned.2 position below
    · rcases Outcome.bind_eq_ok.mp rest with ⟨log, appended, done⟩
      rcases RaftLog.appendEntries_eq_ok.mp appended with ⟨_, rfl⟩
      cases done
      have within : position < (scanConflicts node.state.log (request.prevLogIndex + 1)
          request.entries).1.entries.length := Nat.lt_of_le_of_lt below scanned.1
      exact (List.getElem?_append_left within).trans (scanned.2 position below)

/-- What an insertion does not touch, and where the entries of the new log come
from. -/
structure InsertionFrame (node after : RaftNode) (request : AppendEntriesRequest) : Prop where
  commit : after.state.commitIndex = node.state.commitIndex
  applied : after.state.lastApplied = node.state.lastApplied
  role : after.state.role = node.state.role
  entries : forall entry, entry ∈ after.state.log.entries ->
    entry ∈ node.state.log.entries ∨ entry ∈ request.entries

theorem mem_scanConflicts {log : RaftLog} {entries : List LogEntry} {start : Nat} {entry : LogEntry}
    (listed : entry ∈ (scanConflicts log start entries).1.entries) : entry ∈ log.entries := by
  induction entries generalizing start with
  | nil => exact listed
  | cons first rest inductionHypothesis =>
      simp only [scanConflicts] at listed
      split at listed
      · exact listed
      · split at listed
        · unfold RaftLog.truncateFrom at listed
          split at listed
          · exact List.mem_of_mem_take listed
          · exact listed
        · exact inductionHypothesis listed

theorem insertEntries_frame {request : AppendEntriesRequest}
    (ok : node.insertEntries request = .ok after) : InsertionFrame node after request := by
  unfold insertEntries at ok
  split at ok
  · cases ok
    exact ⟨rfl, rfl, rfl, fun _ listed => Or.inl listed⟩
  · rcases Outcome.bind_eq_ok.mp ok with ⟨firstIndex, _, rest⟩
    simp only at rest
    split at rest
    · cases rest
      exact ⟨rfl, rfl, rfl, fun _ listed => Or.inl (mem_scanConflicts listed)⟩
    · rcases Outcome.bind_eq_ok.mp rest with ⟨log, appended, done⟩
      rcases RaftLog.appendEntries_eq_ok.mp appended with ⟨_, rfl⟩
      cases done
      refine ⟨rfl, rfl, rfl, fun entry listed => ?_⟩
      rcases List.mem_append.mp listed with old | new
      · exact Or.inl (mem_scanConflicts old)
      · exact Or.inr (List.mem_of_mem_drop new)

/-- An `AppendEntries` request leaves the log alone up to an index, unless it is
accepted and conflicts with the log there. -/
theorem get_handleAppendEntries {request : AppendEntriesRequest}
    (handled : node.handleAppendEntries request = .ok (after, actions)) {index : Nat}
    (inside : index < node.state.log.entries.length)
    (agree : node.state.currentTerm ≤ request.term ->
      node.state.log.termAt request.prevLogIndex = request.prevLogTerm ->
      ¬ Conflicts node.state.log request index) {position : Nat} (below : position ≤ index) :
    after.state.log.get position = node.state.log.get position := by
  have sameLog : (node.acceptLeader request).state.log = node.state.log := by simp
  rcases handleAppendEntries_cases handled with
    ⟨_, rfl, _⟩ | ⟨_, _, rfl, _⟩ | ⟨current, passes, inserted, ok, rfl, _⟩
  · rfl
  · rw [sameLog]
  · rcases inserted.followCommit_shape request.leaderCommit with ⟨_, _, _, _, followed⟩
    rw [followed]
    change inserted.state.log.get position = _
    rw [← sameLog] at inside agree ⊢
    exact get_insertEntries ok inside (agree current (by rw [sameLog]; exact passes)) below

end Log

/-! ## Applications -/

/-- Nothing is applied, and the commit index stays where it is. -/
structure Silent (node after : RaftNode) (actions : List Action) : Prop where
  commands : commandsOf actions = []
  commit : after.state.commitIndex = node.state.commitIndex

/-- The entries above the last applied one are applied, up to the new commit
index. -/
structure Applies (node after : RaftNode) (actions : List Action) (high : Nat) : Prop where
  applied : applicationsOf actions = applicationsOf (after.applications node.state.lastApplied high)
  commit : after.state.commitIndex = high

/-- A leader applies entries up to an index of its current term. -/
structure LeaderApplies (node after : RaftNode) (actions : List Action) (high : Nat) : Prop
    extends Applies node after actions high where
  leads : node.state.role = .leader
  above : node.state.commitIndex < high
  inside : high ≤ after.state.log.lastIndex
  current : after.state.log.termAt high = node.state.currentTerm

section Applications

variable {node after : RaftNode} {actions : List Action}

theorem commandsOf_append (first second : List Action) :
    commandsOf (first ++ second) = commandsOf first ++ commandsOf second :=
  List.filterMap_append

theorem applicationsOf_append (first second : List Action) :
    applicationsOf (first ++ second) = applicationsOf first ++ applicationsOf second :=
  List.filterMap_append

theorem commandsOf_eq_map (actions : List Action) :
    commandsOf actions = (applicationsOf actions).map Prod.snd := by
  rw [commandsOf, applicationsOf, List.map_filterMap]
  congr 1
  funext action
  cases action <;> rfl

theorem applicationsOf_replicateToAllPeers (node : RaftNode) :
    applicationsOf node.replicateToAllPeers = [] := by
  rw [applicationsOf, List.filterMap_eq_nil_iff]
  intro action listed
  rcases mem_replicateToAllPeers listed with ⟨_, _, _, _, rfl⟩
  rfl

theorem commandsOf_replicateToAllPeers (node : RaftNode) :
    commandsOf node.replicateToAllPeers = [] := by
  rw [commandsOf_eq_map, applicationsOf_replicateToAllPeers]
  rfl

/-- A list of actions that is cut before the first entry behind `last` applies what
the whole list applies up to there. -/
theorem applicationsOf_takeWhile (last : Nat) (actions : List Action) :
    applicationsOf (actions.takeWhile (upTo last)) =
      (applicationsOf actions).takeWhile (fun applied => applied.1 ≤ last) := by
  rw [applicationsOf, applicationsOf, List.takeWhile_filterMap]
  congr 2
  funext action
  cases action <;> rfl

/-- A range of entries is applied in two parts. -/
theorem applications_append (node : RaftNode) {low middle high : Nat} (first : low ≤ middle)
    (second : middle ≤ high) :
    node.applications low high = node.applications low middle ++ node.applications middle high := by
  have indices : List.range' (low + 1) (high - low) =
      List.range' (low + 1) (middle - low) ++ List.range' (middle + 1) (high - middle) := by
    rw [show middle + 1 = low + 1 + (middle - low) by omega, List.range'_append_1]
    congr 1
    omega
  rw [applications, indices, List.flatMap_append]
  rfl

theorem applications_eq_nil (node : RaftNode) {low high : Nat} (empty : high ≤ low) :
    node.applications low high = [] := by
  rw [applications, Nat.sub_eq_zero_of_le empty]
  rfl

/-- The applications of a range stop where a list of actions is cut. -/
theorem applications_takeWhile (node : RaftNode) (low high last : Nat) :
    (node.applications low high).takeWhile (upTo last) = node.applications low (min last high) := by
  have within : forall low' high', high' ≤ last -> forall action,
      action ∈ node.applications low' high' -> upTo last action = true := by
    intro low' high' bound action listed
    rcases mem_applications.mp listed with ⟨index, _, below, _, _, _, rfl⟩
    exact decide_eq_true (Nat.le_trans below bound)
  have beyond : forall low' high', last ≤ low' ->
      (node.applications low' high').takeWhile (upTo last) = [] := by
    intro low' high' bound
    rw [List.takeWhile_eq_nil_iff]
    intro inside reached
    rcases mem_applications.mp (List.get_mem _ ⟨0, inside⟩) with ⟨index, above, _, _, _, _, equal⟩
    rw [equal] at reached
    have bounded : index ≤ last := of_decide_eq_true reached
    omega
  by_cases whole : high ≤ last
  · rw [Nat.min_eq_right whole]
    exact List.takeWhile_eq_self_iff.mpr (within low high whole)
  · rw [Nat.min_eq_left (Nat.le_of_not_le whole)]
    by_cases nothing : last ≤ low
    · rw [beyond low high nothing, applications_eq_nil node nothing]
    · rw [applications_append node (Nat.le_of_not_le nothing) (Nat.le_of_not_le whole),
        List.takeWhile_append_of_pos (within low last (Nat.le_refl _)),
        beyond last high (Nat.le_refl _), List.append_nil]

/-- What an application hands to the state machine. -/
theorem Applies.commands {high : Nat} (applies : Applies node after actions high) :
    commandsOf actions = commandsOf (after.applications node.state.lastApplied high) := by
  rw [commandsOf_eq_map, applies.applied, ← commandsOf_eq_map]

/-- What it hands over before it is cut off. -/
theorem Applies.commands_takeWhile {high : Nat} (applies : Applies node after actions high)
    (last : Nat) :
    commandsOf (actions.takeWhile (upTo last)) =
      commandsOf (after.applications node.state.lastApplied (min last high)) := by
  rw [commandsOf_eq_map, applicationsOf_takeWhile, applies.applied, ← applicationsOf_takeWhile,
    ← commandsOf_eq_map, applications_takeWhile]

/-- Nothing is applied by a part of actions that apply nothing. -/
theorem Silent.commands_takeWhile (silent : Silent node after actions) (last : Nat) :
    commandsOf (actions.takeWhile (upTo last)) = [] := by
  have part : (commandsOf (actions.takeWhile (upTo last))).Sublist (commandsOf actions) :=
    (List.takeWhile_sublist _).filterMap _
  rw [silent.commands] at part
  exact List.sublist_nil.mp part

theorem commandsOf_requestVotes (node : RaftNode) : commandsOf node.requestVotes = [] := by
  rw [commandsOf, List.filterMap_eq_nil_iff]
  intro action listed
  rcases List.mem_map.mp listed with ⟨_, _, rfl⟩
  rfl

/-- What applying a range of entries hands to the state machine, seen through a
function that ignores no-ops. -/
theorem filterMap_applications {β : Type} (f : LogCommand -> Option β) (ignores : f .noop = none)
    (node : RaftNode) {low high : Nat} (inside : high ≤ node.state.log.body.length) :
    (commandsOf (node.applications low high)).filterMap f =
      ((node.state.log.body.take high).drop low).filterMap (fun entry => f entry.command) := by
  have single : forall command, [command].filterMap f = (f command).toList := by
    intro command
    rw [List.filterMap_cons]
    cases f command <;> rfl
  have range : forall count start, start + count ≤ node.state.log.body.length ->
      (commandsOf ((List.range' (start + 1) count).flatMap node.applyAction)).filterMap f =
        ((node.state.log.body.drop start).take count).filterMap (fun entry => f entry.command) := by
    intro count
    induction count with
    | zero => simp [commandsOf]
    | succ count inductionHypothesis =>
        intro start bound
        have here : start < node.state.log.body.length := by omega
        have present : node.state.log.get (start + 1) = some node.state.log.body[start] := by
          rw [RaftLog.get_succ, List.getElem?_eq_getElem here]
        have first : (commandsOf (node.applyAction (start + 1))).filterMap f =
            (f node.state.log.body[start].command).toList := by
          unfold applyAction
          rw [present]
          generalize node.state.log.body[start] = entry
          rcases entry with ⟨term, command⟩
          cases command with
          | put key value => exact single _
          | delete key => exact single _
          | noop => rw [ignores]; rfl
        rw [List.range'_succ, List.flatMap_cons, commandsOf_append, List.filterMap_append, first,
          inductionHypothesis (start + 1) (by omega), List.drop_eq_getElem_cons here,
          List.take_succ_cons, List.filterMap_cons]
        cases f node.state.log.body[start].command <;> rfl
  by_cases empty : high ≤ low
  · have nothing : high - low = 0 := by omega
    rw [applications, nothing, List.drop_eq_nil_of_le (by rw [List.length_take]; omega)]
    rfl
  · rw [applications, range (high - low) low (by omega), List.drop_take]

theorem tick_silent (ticked : node.tick = .ok (after, actions)) : Silent node after actions := by
  rcases tick_cases ticked with ⟨_, rfl, rfl⟩ | ⟨_, _, rfl, sent⟩ | ⟨_, _, started⟩
  · exact ⟨rfl, rfl⟩
  · rcases sent with rfl | rfl
    · exact ⟨rfl, rfl⟩
    · exact ⟨commandsOf_replicateToAllPeers node, rfl⟩
  · rcases startElection_eq_ok.mp started with ⟨_, result⟩
    split at result
    · cases result
      exact ⟨commandsOf_replicateToAllPeers _, rfl⟩
    · cases result
      exact ⟨commandsOf_requestVotes _, rfl⟩

theorem handleRequestVote_silent (node : RaftNode) (request : RequestVoteRequest) :
    Silent node (node.handleRequestVote request).1 (node.handleRequestVote request).2 := by
  have raised : (node.raiseTerm request.term).state.commitIndex = node.state.commitIndex := by
    unfold raiseTerm
    split <;> simp
  rcases node.handleRequestVote_cases request with ⟨_, equal⟩ | ⟨_, _, _, equal⟩ | ⟨_, _, equal⟩
  · rw [equal]
    exact ⟨rfl, rfl⟩
  · rw [equal]
    exact ⟨rfl, raised⟩
  · rw [equal]
    exact ⟨rfl, raised⟩

theorem handleRequestVoteResponse_silent (node : RaftNode) (sender : Nat)
    (response : RequestVoteResponse) :
    Silent node (node.handleRequestVoteResponse sender response).1
      (node.handleRequestVoteResponse sender response).2 := by
  have counted : (node.countVote sender response).state.commitIndex = node.state.commitIndex := by
    rw [countVote_state]
  rcases node.handleRequestVoteResponse_cases sender response with
    equal | ⟨_, _, equal⟩ | ⟨_, _, equal⟩
  · rw [equal]
    exact ⟨rfl, rfl⟩
  · rw [equal]
    exact ⟨rfl, by simp⟩
  · rw [equal]
    split
    · exact ⟨commandsOf_replicateToAllPeers _, counted⟩
    · exact ⟨rfl, counted⟩

/-- A follower applies what the leader says is committed, as far as its log
reaches. -/
theorem handleAppendEntries_applies {request : AppendEntriesRequest}
    (handled : node.handleAppendEntries request = .ok (after, actions)) :
    Silent node after actions ∨
    (node.state.currentTerm ≤ request.term ∧
      node.state.log.termAt request.prevLogIndex = request.prevLogTerm ∧
      node.state.commitIndex < request.leaderCommit ∧
      Applies node after actions (min request.leaderCommit after.state.log.lastIndex)) := by
  rcases handleAppendEntries_cases handled with
    ⟨_, rfl, rfl⟩ | ⟨_, _, rfl, rfl⟩ | ⟨current, passes, inserted, ok, rfl, rfl⟩
  · exact Or.inl ⟨rfl, rfl⟩
  · exact Or.inl ⟨rfl, by simp⟩
  · have counters : inserted.state.commitIndex = node.state.commitIndex ∧
        inserted.state.lastApplied = node.state.lastApplied := by
      have frame := insertEntries_frame ok
      exact ⟨by rw [frame.commit]; simp, by rw [frame.applied]; simp⟩
    rw [followCommit_eq]
    split
    · next above =>
        refine Or.inr ⟨current, passes, by rw [← counters.1]; exact above, ?_, rfl⟩
        rw [applicationsOf_append, counters.2]
        exact List.append_nil _
    · exact Or.inl ⟨rfl, counters.1⟩

/-- The commit rule of a leader. -/
theorem maybeAdvanceCommitIndex_applies (node : RaftNode) (leads : node.state.role = .leader) :
    Silent node node.maybeAdvanceCommitIndex.1 node.maybeAdvanceCommitIndex.2 ∨
    Exists fun high =>
      LeaderApplies node node.maybeAdvanceCommitIndex.1 node.maybeAdvanceCommitIndex.2 high := by
  rw [maybeAdvanceCommitIndex_eq]
  rcases node.scannedCommit_cases with unmoved | ⟨above, inside, current, _⟩
  · rw [if_neg (by omega)]
    exact Or.inl ⟨rfl, rfl⟩
  · rw [if_pos above]
    exact Or.inr ⟨_, ⟨rfl, rfl⟩, leads, above, inside, current⟩

theorem handleAppendEntriesResponse_applies {sender : Nat} {response : AppendEntriesResponse}
    (handled : node.handleAppendEntriesResponse sender response = .ok (after, actions)) :
    Silent node after actions ∨ Exists fun high => LeaderApplies node after actions high := by
  rcases handleAppendEntriesResponse_cases handled with
    ⟨_, rfl, rfl⟩ | ⟨_, _, rfl, rfl⟩ | ⟨leads, _, _, recorded, ok, equal⟩ | ⟨_, _, _, ok, rfl⟩
  · exact Or.inl ⟨rfl, rfl⟩
  · exact Or.inl ⟨rfl, by simp⟩
  · rcases recordMatch_eq_ok ok with ⟨matchIndex, nextIndex, rfl, _⟩
    have applies := maybeAdvanceCommitIndex_applies { node with state := { node.state with
      matchIndex := matchIndex, nextIndex := nextIndex } } leads
    rw [← equal] at applies
    rcases applies with silent | ⟨high, applies⟩
    · exact Or.inl ⟨silent.commands, silent.commit⟩
    · exact Or.inr ⟨high, ⟨applies.applied, applies.commit⟩, leads, applies.above, applies.inside,
        applies.current⟩
  · rcases recordRejection_eq_ok ok with ⟨nextIndex, rfl, _⟩
    exact Or.inl ⟨rfl, rfl⟩

theorem propose_applies {command : LogCommand} {emitted : Option (List Action)}
    (proposed : node.propose command = .ok (after, emitted)) :
    Silent node after (emitted.getD []) ∨
    Exists fun high => LeaderApplies node after (emitted.getD []) high := by
  rcases propose_cases proposed with ⟨_, rfl, rfl⟩ | ⟨leads, _, rfl, rfl⟩
  · exact Or.inl ⟨rfl, rfl⟩
  · have applies := (node.withEntry command).maybeAdvanceCommitIndex_applies leads
    have applied : applicationsOf ((some ((node.withEntry command).replicateToAllPeers ++
        (node.withEntry command).maybeAdvanceCommitIndex.2)).getD []) =
        applicationsOf (node.withEntry command).maybeAdvanceCommitIndex.2 := by
      rw [Option.getD_some, applicationsOf_append, applicationsOf_replicateToAllPeers, List.nil_append]
    rcases applies with silent | ⟨high, applies⟩
    · refine Or.inl ⟨?_, silent.commit⟩
      rw [commandsOf_eq_map, applied, ← commandsOf_eq_map]
      exact silent.commands
    · exact Or.inr ⟨high, ⟨applied.trans applies.applied, applies.commit⟩, leads, applies.above,
        applies.inside, applies.current⟩

end Applications

/-! ## Progress -/

/-- The log goes at least as far as has been applied, and all that has been
committed has been applied. -/
structure Ready (node : RaftNode) : Prop where
  inside : node.state.lastApplied < node.state.log.entries.length
  commit : node.state.commitIndex = node.state.lastApplied

/-- A call that leaves the applied entries alone and applies the following ones, as
far as it commits. -/
structure Progress (node after : RaftNode) (actions : List Action) : Prop where
  ready : after.Ready
  kept : after.state.log.body.take node.state.lastApplied =
    node.state.log.body.take node.state.lastApplied
  forward : node.state.lastApplied ≤ after.state.lastApplied
  commands : commandsOf actions =
    commandsOf (after.applications node.state.lastApplied after.state.lastApplied)

section Progress

variable {node after : RaftNode} {actions : List Action}

theorem take_body_eq {log other : RaftLog} {index : Nat}
    (agree : forall position, position ≤ index -> log.get position = other.get position) :
    log.body.take index = other.body.take index := by
  apply List.ext_getElem?
  intro position
  by_cases below : position < index
  · rw [List.getElem?_take_of_lt below, List.getElem?_take_of_lt below, ← RaftLog.get_succ,
      ← RaftLog.get_succ, agree _ below]
  · rw [List.getElem?_eq_none (by rw [List.length_take]; omega),
      List.getElem?_eq_none (by rw [List.length_take]; omega)]

/-- A call that applies nothing. -/
theorem Ready.progress_silent (ready : node.Ready)
    (kept : after.state.log.body.take node.state.lastApplied =
      node.state.log.body.take node.state.lastApplied)
    (inside : node.state.lastApplied < after.state.log.entries.length)
    (applied : after.state.lastApplied = node.state.lastApplied)
    (commit : after.state.commitIndex = node.state.commitIndex)
    (silent : commandsOf actions = []) : Progress node after actions where
  ready := ⟨by rw [applied]; exact inside, by rw [applied, commit]; exact ready.commit⟩
  kept := kept
  forward := Nat.le_of_eq applied.symm
  commands := by
    rw [silent, applied, applications, Nat.sub_self]
    rfl

/-- A call that also leaves the log alone. -/
theorem Ready.progress_same (ready : node.Ready) (log : after.state.log = node.state.log)
    (applied : after.state.lastApplied = node.state.lastApplied)
    (commit : after.state.commitIndex = node.state.commitIndex)
    (silent : commandsOf actions = []) : Progress node after actions :=
  ready.progress_silent (by rw [log]) (by rw [log]; exact ready.inside) applied commit silent

/-- A call that commits up to an index of its log. -/
theorem progress_commit {middle : RaftNode}
    (kept : middle.state.log.body.take node.state.lastApplied =
      node.state.log.body.take node.state.lastApplied)
    (applied : middle.state.lastApplied = node.state.lastApplied) {high : Nat}
    (forward : node.state.lastApplied ≤ high) (inside : high < middle.state.log.entries.length)
    (commands : commandsOf actions =
      commandsOf (middle.applications middle.state.lastApplied high)) :
    Progress node (middle.withCommit (max middle.state.lastApplied high) high) actions := by
  have reached : max middle.state.lastApplied high = high := by omega
  rw [reached]
  rw [applied] at commands
  exact ⟨⟨inside, rfl⟩, kept, forward, commands⟩

theorem Ready.tick (ready : node.Ready) (ticked : node.tick = .ok (after, actions)) :
    Progress node after actions := by
  have silent := (tick_silent ticked).commands
  rcases tick_cases ticked with ⟨_, rfl, _⟩ | ⟨_, _, rfl, _⟩ | ⟨_, _, started⟩
  · exact ready.progress_same rfl rfl rfl silent
  · exact ready.progress_same rfl rfl rfl silent
  · rcases startElection_eq_ok.mp started with ⟨_, result⟩
    split at result <;> cases result <;> exact ready.progress_same rfl rfl rfl silent

theorem Ready.handleRequestVote (ready : node.Ready) (request : RequestVoteRequest) :
    Progress node (node.handleRequestVote request).1 (node.handleRequestVote request).2 := by
  have raised : (node.raiseTerm request.term).state.lastApplied = node.state.lastApplied := by
    unfold raiseTerm
    split <;> simp
  refine ready.progress_same (handleRequestVote_log node request) ?_
    (handleRequestVote_silent node request).commit (handleRequestVote_silent node request).commands
  rcases node.handleRequestVote_cases request with ⟨_, equal⟩ | ⟨_, _, _, equal⟩ | ⟨_, _, equal⟩
  · rw [equal]
  · rw [equal]
    exact raised
  · rw [equal]
    exact raised

theorem Ready.handleRequestVoteResponse (ready : node.Ready) (sender : Nat)
    (response : RequestVoteResponse) :
    Progress node (node.handleRequestVoteResponse sender response).1
      (node.handleRequestVoteResponse sender response).2 := by
  have counted : (node.countVote sender response).state.lastApplied = node.state.lastApplied := by
    rw [countVote_state]
  refine ready.progress_same (handleRequestVoteResponse_log node sender response) ?_
    (handleRequestVoteResponse_silent node sender response).commit
    (handleRequestVoteResponse_silent node sender response).commands
  rcases node.handleRequestVoteResponse_cases sender response with
    equal | ⟨_, _, equal⟩ | ⟨_, _, equal⟩
  · rw [equal]
  · rw [equal]
    simp
  · rw [equal]
    split <;> exact counted

/-- An accepted request must not conflict with what has been applied. -/
theorem Ready.handleAppendEntries (ready : node.Ready) {request : AppendEntriesRequest}
    (handled : node.handleAppendEntries request = .ok (after, actions))
    (agree : node.state.currentTerm ≤ request.term ->
      node.state.log.termAt request.prevLogIndex = request.prevLogTerm ->
      ¬ Conflicts node.state.log request node.state.lastApplied) :
    Progress node after actions := by
  have same : forall position, position ≤ node.state.lastApplied ->
      after.state.log.get position = node.state.log.get position :=
    fun position below => get_handleAppendEntries handled ready.inside agree below
  have inside : node.state.lastApplied < after.state.log.entries.length := by
    have here := same _ (Nat.le_refl _)
    unfold RaftLog.get at here
    rw [List.getElem?_eq_getElem ready.inside] at here
    exact (List.getElem?_eq_some_iff.mp here).1
  have kept := take_body_eq same
  rcases handleAppendEntries_cases handled with
    ⟨_, rfl, rfl⟩ | ⟨_, _, rfl, rfl⟩ | ⟨_, _, inserted, ok, rfl, rfl⟩
  · exact ready.progress_same rfl rfl rfl rfl
  · exact ready.progress_same (by simp) (by simp) (by simp) rfl
  · have frame := insertEntries_frame ok
    have applied : inserted.state.lastApplied = node.state.lastApplied := by
      rw [frame.applied]
      simp
    have commit : inserted.state.commitIndex = node.state.commitIndex := by
      rw [frame.commit]
      simp
    have sameLog : (inserted.followCommit request.leaderCommit).1.state.log =
        inserted.state.log := by
      rcases inserted.followCommit_shape request.leaderCommit with ⟨_, _, _, _, followed⟩
      rw [followed]
      rfl
    rw [sameLog] at kept inside
    rw [followCommit_eq]
    split
    · next above =>
        have reaches := ready.commit
        rw [commit] at above
        apply progress_commit kept applied
        · unfold RaftLog.lastIndex
          omega
        · unfold RaftLog.lastIndex
          omega
        · rw [commandsOf_append]
          exact List.append_nil _
    · exact ready.progress_silent kept inside applied commit rfl

/-- The commit rule of a leader, after a call that left what has been applied
alone. -/
theorem Ready.maybeAdvanceCommitIndex (ready : node.Ready) {middle : RaftNode}
    (kept : middle.state.log.body.take node.state.lastApplied =
      node.state.log.body.take node.state.lastApplied)
    (inside : node.state.lastApplied < middle.state.log.entries.length)
    (applied : middle.state.lastApplied = node.state.lastApplied)
    (commit : middle.state.commitIndex = node.state.commitIndex)
    (commands : commandsOf actions = commandsOf middle.maybeAdvanceCommitIndex.2) :
    Progress node middle.maybeAdvanceCommitIndex.1 actions := by
  have reaches := ready.commit
  rw [maybeAdvanceCommitIndex_eq] at commands ⊢
  split
  · next above =>
      rw [if_pos above] at commands
      rcases middle.scannedCommit_cases with unmoved | ⟨_, within, _⟩
      · omega
      · unfold RaftLog.lastIndex at within
        exact progress_commit kept applied (by omega) (by omega) commands
  · next above =>
      rw [if_neg above] at commands
      exact ready.progress_silent kept inside applied commit commands

theorem Ready.handleAppendEntriesResponse (ready : node.Ready) {sender : Nat}
    {response : AppendEntriesResponse}
    (handled : node.handleAppendEntriesResponse sender response = .ok (after, actions)) :
    Progress node after actions := by
  rcases handleAppendEntriesResponse_cases handled with
    ⟨_, rfl, rfl⟩ | ⟨_, _, rfl, rfl⟩ | ⟨_, _, _, recorded, ok, equal⟩ | ⟨_, _, _, ok, rfl⟩
  · exact ready.progress_same rfl rfl rfl rfl
  · exact ready.progress_same (by simp) (by simp) (by simp) rfl
  · rcases recordMatch_eq_ok ok with ⟨matchIndex, nextIndex, rfl, _⟩
    rw [Prod.ext_iff] at equal
    rcases equal with ⟨rfl, rfl⟩
    exact ready.maybeAdvanceCommitIndex rfl ready.inside rfl rfl rfl
  · rcases recordRejection_eq_ok ok with ⟨nextIndex, rfl, _⟩
    exact ready.progress_same rfl rfl rfl rfl

theorem Ready.propose (ready : node.Ready) {command : LogCommand} {emitted : Option (List Action)}
    (proposed : node.propose command = .ok (after, emitted)) :
    Progress node after (emitted.getD []) := by
  rcases propose_cases proposed with ⟨_, rfl, rfl⟩ | ⟨_, _, rfl, rfl⟩
  · exact ready.progress_same rfl rfl rfl rfl
  · have within := ready.inside
    have longer : (node.withEntry command).state.log.entries.length =
        node.state.log.entries.length + 1 := List.length_append
    refine ready.maybeAdvanceCommitIndex ?_ (by omega) rfl rfl ?_
    · apply take_body_eq
      intro position below
      exact List.getElem?_append_left (by omega)
    · rw [Option.getD_some, commandsOf_append, commandsOf_replicateToAllPeers, List.nil_append]

end Progress

/-! ## Leadership -/

/-- Whoever is leader after a call was leader before, or candidate in the same
term, or has just entered a new term. -/
def Ascends (node after : RaftNode) : Prop :=
  after.state.role = .leader ->
    (node.state.role = .leader ∧ after.state.currentTerm = node.state.currentTerm) ∨
    (node.state.role = .candidate ∧ after.state.currentTerm = node.state.currentTerm) ∨
    after.state.currentTerm = node.state.currentTerm + 1

section Leadership

variable {node after : RaftNode} {actions : List Action}

theorem ascends_of_same (sameRole : after.state.role = node.state.role)
    (sameTerm : after.state.currentTerm = node.state.currentTerm) : Ascends node after :=
  fun leads => Or.inl ⟨sameRole.symm.trans leads, sameTerm⟩

theorem ascends_of_follower (role : after.state.role = .follower) : Ascends node after := by
  intro leads
  rw [role] at leads
  cases leads

theorem tick_ascends (ticked : node.tick = .ok (after, actions)) : Ascends node after := by
  rcases tick_cases ticked with ⟨_, rfl, _⟩ | ⟨_, _, rfl, _⟩ | ⟨_, _, started⟩
  · exact ascends_of_same rfl rfl
  · exact ascends_of_same rfl rfl
  · rcases startElection_eq_ok.mp started with ⟨_, result⟩
    intro _
    right
    right
    split at result <;> cases result <;> rfl

theorem handleRequestVote_ascends (node : RaftNode) (request : RequestVoteRequest) :
    Ascends node (node.handleRequestVote request).1 := by
  have raised : forall voter : RaftNode,
      voter.state.role = (node.raiseTerm request.term).state.role ->
      voter.state.currentTerm = (node.raiseTerm request.term).state.currentTerm ->
      Ascends node voter := by
    intro voter role term
    unfold raiseTerm at role term
    split at role
    · exact ascends_of_follower (by rw [role]; simp)
    · next lower =>
        rw [if_neg lower] at term
        exact ascends_of_same role term
  rcases node.handleRequestVote_cases request with ⟨_, equal⟩ | ⟨_, _, _, equal⟩ | ⟨_, _, equal⟩
  · rw [equal]
    exact ascends_of_same rfl rfl
  · rw [equal]
    exact raised _ rfl rfl
  · rw [equal]
    exact raised _ rfl rfl

theorem handleRequestVoteResponse_ascends (node : RaftNode) (sender : Nat)
    (response : RequestVoteResponse) :
    Ascends node (node.handleRequestVoteResponse sender response).1 := by
  have counted : (node.countVote sender response).state.currentTerm = node.state.currentTerm := by
    rw [countVote_state]
  rcases node.handleRequestVoteResponse_cases sender response with
    equal | ⟨_, _, equal⟩ | ⟨role, _, equal⟩
  · rw [equal]
    exact ascends_of_same rfl rfl
  · rw [equal]
    exact ascends_of_follower (by simp)
  · rw [equal]
    intro _
    refine Or.inr (Or.inl ⟨role, ?_⟩)
    split <;> exact counted

theorem handleAppendEntries_ascends {request : AppendEntriesRequest}
    (handled : node.handleAppendEntries request = .ok (after, actions)) : Ascends node after := by
  rcases handleAppendEntries_cases handled with
    ⟨_, rfl, _⟩ | ⟨_, _, rfl, _⟩ | ⟨_, _, inserted, ok, rfl, _⟩
  · exact ascends_of_same rfl rfl
  · exact ascends_of_follower (by simp)
  · apply ascends_of_follower
    rcases inserted.followCommit_shape request.leaderCommit with ⟨_, _, _, _, followed⟩
    rw [followed]
    change inserted.state.role = .follower
    rw [(insertEntries_frame ok).role]
    simp

theorem handleAppendEntriesResponse_ascends {sender : Nat} {response : AppendEntriesResponse}
    (handled : node.handleAppendEntriesResponse sender response = .ok (after, actions)) :
    Ascends node after := by
  rcases handleAppendEntriesResponse_cases handled with
    ⟨_, rfl, _⟩ | ⟨_, _, rfl, _⟩ | ⟨_, _, _, recorded, ok, equal⟩ | ⟨_, _, _, ok, _⟩
  · exact ascends_of_same rfl rfl
  · exact ascends_of_follower (by simp)
  · rcases recordMatch_eq_ok ok with ⟨matchIndex, nextIndex, rfl, _⟩
    rcases maybeAdvanceCommitIndex_shape { node with state := { node.state with
      matchIndex := matchIndex, nextIndex := nextIndex } } with ⟨_, _, _, _, advanced⟩
    rw [advanced] at equal
    cases equal
    exact ascends_of_same rfl rfl
  · rcases recordRejection_eq_ok ok with ⟨nextIndex, rfl, _⟩
    exact ascends_of_same rfl rfl

theorem propose_ascends {command : LogCommand} {emitted : Option (List Action)}
    (proposed : node.propose command = .ok (after, emitted)) : Ascends node after := by
  rcases propose_cases proposed with ⟨_, rfl, _⟩ | ⟨_, _, rfl, _⟩
  · exact ascends_of_same rfl rfl
  · rcases (node.withEntry command).maybeAdvanceCommitIndex_shape with ⟨_, _, _, _, advanced⟩
    rw [advanced]
    exact ascends_of_same rfl rfl

end Leadership

/-! ## Calls without requests -/

/-- No replication requests are among the actions. -/
def Requestless (actions : List Action) : Prop :=
  forall recipient request, Action.sendAppendEntries recipient request ∉ actions

theorem requestless_nil : Requestless [] := fun _ _ => List.not_mem_nil

theorem requestless_applications (node : RaftNode) (low high : Nat) :
    Requestless (node.applications low high) := by
  intro recipient request listed
  rcases mem_applications.mp listed with ⟨_, _, _, _, _, _, impossible⟩
  cases impossible

theorem requestless_requestVotes (node : RaftNode) : Requestless node.requestVotes := by
  intro recipient request listed
  rcases List.mem_map.mp listed with ⟨_, _, impossible⟩
  cases impossible

theorem requestless_voteResponse (recipient : Nat) (response : RequestVoteResponse) :
    Requestless [.sendRequestVoteResponse recipient response] := by
  intro _ _ listed
  cases List.mem_singleton.mp listed

theorem requestless_reply (recipient : Nat) (response : AppendEntriesResponse) :
    Requestless [.sendAppendEntriesResponse recipient response] := by
  intro _ _ listed
  cases List.mem_singleton.mp listed

theorem Requestless.append {first second : List Action} (left : Requestless first)
    (right : Requestless second) : Requestless (first ++ second) := by
  intro recipient request listed
  rcases List.mem_append.mp listed with before | behind
  · exact left recipient request before
  · exact right recipient request behind

/-! ## Where entries come from -/

/-- Only such entries are in the log. -/
def LogsOnly (Good : LogEntry -> Prop) (node : RaftNode) : Prop :=
  forall entry, entry ∈ node.state.log.entries -> Good entry

/-- Only such entries are sent to followers. -/
def SendsOnly (Good : LogEntry -> Prop) (actions : List Action) : Prop :=
  forall recipient request, Action.sendAppendEntries recipient request ∈ actions ->
    forall entry, entry ∈ request.entries -> Good entry

section Entries

variable {Good : LogEntry -> Prop} {node after : RaftNode} {actions : List Action}

theorem LogsOnly.congr (good : LogsOnly Good node) (same : after.state.log = node.state.log) :
    LogsOnly Good after := by
  unfold LogsOnly
  rw [same]
  exact good

theorem LogsOnly.sendsOnly_replicate (good : LogsOnly Good node) :
    SendsOnly Good node.replicateToAllPeers := by
  intro recipient request listed entry sent
  rcases mem_replicateToAllPeers listed with ⟨_, next, _, _, equal⟩
  cases equal
  apply good
  simp only [RaftLog.entriesFrom] at sent
  split at sent
  · cases sent
  · exact List.mem_of_mem_drop sent

theorem SendsOnly.append {first second : List Action} (left : SendsOnly Good first)
    (right : SendsOnly Good second) : SendsOnly Good (first ++ second) := by
  intro recipient request listed
  rcases List.mem_append.mp listed with before | behind
  · exact left recipient request before
  · exact right recipient request behind

theorem Requestless.sendsOnly (quiet : Requestless actions) : SendsOnly Good actions :=
  fun recipient request listed => absurd listed (quiet recipient request)

/-- What a call makes of good entries: a log and messages of good entries. -/
structure Passes (Good : LogEntry -> Prop) (after : RaftNode) (actions : List Action) : Prop where
  logs : LogsOnly Good after
  sends : SendsOnly Good actions

theorem tick_passes (good : LogsOnly Good node) (ticked : node.tick = .ok (after, actions)) :
    Passes Good after actions := by
  refine ⟨good.congr (tick_log ticked), ?_⟩
  rcases tick_cases ticked with ⟨_, _, rfl⟩ | ⟨_, _, _, sent⟩ | ⟨_, _, started⟩
  · exact requestless_nil.sendsOnly
  · rcases sent with rfl | rfl
    · exact requestless_nil.sendsOnly
    · exact good.sendsOnly_replicate
  · rcases startElection_eq_ok.mp started with ⟨_, result⟩
    split at result
    · cases result
      have same : LogsOnly Good { node with electionTimeout := _ } := good
      exact LogsOnly.sendsOnly_replicate same
    · cases result
      exact (requestless_requestVotes _).sendsOnly

theorem handleRequestVote_passes (good : LogsOnly Good node) (request : RequestVoteRequest) :
    Passes Good (node.handleRequestVote request).1 (node.handleRequestVote request).2 := by
  refine ⟨good.congr (node.handleRequestVote_log request), ?_⟩
  rcases node.handleRequestVote_cases request with ⟨_, equal⟩ | ⟨_, _, _, equal⟩ | ⟨_, _, equal⟩
  · rw [equal]
    exact (requestless_voteResponse _ _).sendsOnly
  · rw [equal]
    exact (requestless_voteResponse _ _).sendsOnly
  · rw [equal]
    exact (requestless_voteResponse _ _).sendsOnly

theorem handleRequestVoteResponse_passes (good : LogsOnly Good node) (sender : Nat)
    (response : RequestVoteResponse) :
    Passes Good (node.handleRequestVoteResponse sender response).1
      (node.handleRequestVoteResponse sender response).2 := by
  refine ⟨good.congr (node.handleRequestVoteResponse_log sender response), ?_⟩
  rcases node.handleRequestVoteResponse_cases sender response with
    equal | ⟨_, _, equal⟩ | ⟨_, _, equal⟩
  · rw [equal]
    exact requestless_nil.sendsOnly
  · rw [equal]
    exact requestless_nil.sendsOnly
  · rw [equal]
    split
    · have same : LogsOnly Good (node.countVote sender response).winElection.1 :=
        good.congr (by change (node.countVote sender response).state.log = _; rw [countVote_state])
      exact same.sendsOnly_replicate
    · exact requestless_nil.sendsOnly

theorem handleAppendEntries_passes (good : LogsOnly Good node) {request : AppendEntriesRequest}
    (entries : forall entry, entry ∈ request.entries -> Good entry)
    (handled : node.handleAppendEntries request = .ok (after, actions)) :
    Passes Good after actions := by
  have accepted : LogsOnly Good (node.acceptLeader request) := good.congr (by simp)
  rcases handleAppendEntries_cases handled with
    ⟨_, rfl, rfl⟩ | ⟨_, _, rfl, rfl⟩ | ⟨_, _, inserted, ok, rfl, rfl⟩
  · exact ⟨good, (requestless_reply _ _).sendsOnly⟩
  · exact ⟨accepted, (requestless_reply _ _).sendsOnly⟩
  · have insertedGood : LogsOnly Good inserted := by
      intro entry listed
      rcases (insertEntries_frame ok).entries entry listed with old | new
      · exact accepted entry old
      · exact entries entry new
    rcases inserted.followCommit_shape request.leaderCommit with ⟨_, _, _, _, followed⟩
    rw [followed]
    exact ⟨insertedGood, ((requestless_applications _ _ _).append (requestless_reply _ _)).sendsOnly⟩

theorem handleAppendEntriesResponse_passes (good : LogsOnly Good node) {sender : Nat}
    {response : AppendEntriesResponse}
    (handled : node.handleAppendEntriesResponse sender response = .ok (after, actions)) :
    Passes Good after actions := by
  refine ⟨good.congr (handleAppendEntriesResponse_log handled), ?_⟩
  rcases handleAppendEntriesResponse_cases handled with
    ⟨_, _, rfl⟩ | ⟨_, _, _, rfl⟩ | ⟨_, _, _, recorded, _, equal⟩ | ⟨_, _, _, _, rfl⟩
  · exact requestless_nil.sendsOnly
  · exact requestless_nil.sendsOnly
  · rcases recorded.maybeAdvanceCommitIndex_shape with ⟨_, _, _, _, advanced⟩
    rw [advanced] at equal
    cases equal
    exact (requestless_applications _ _ _).sendsOnly
  · exact requestless_nil.sendsOnly

theorem propose_passes (good : LogsOnly Good node) {command : LogCommand}
    (proposal : forall term, Good ⟨term, command⟩) {emitted : Option (List Action)}
    (proposed : node.propose command = .ok (after, emitted)) :
    Passes Good after (emitted.getD []) := by
  rcases propose_cases proposed with ⟨_, rfl, rfl⟩ | ⟨_, _, rfl, rfl⟩
  · exact ⟨good, requestless_nil.sendsOnly⟩
  · have appended : LogsOnly Good (node.withEntry command) := by
      intro entry listed
      rcases List.mem_append.mp listed with old | new
      · exact good entry old
      · rw [List.mem_singleton.mp new]
        exact proposal _
    rcases (node.withEntry command).maybeAdvanceCommitIndex_shape with ⟨_, _, _, _, advanced⟩
    rw [advanced]
    exact ⟨appended, appended.sendsOnly_replicate.append (requestless_applications _ _ _).sendsOnly⟩

end Entries
end RaftNode
end Raft
end RaftStore
