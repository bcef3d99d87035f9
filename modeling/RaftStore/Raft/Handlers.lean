import RaftStore.Raft.Node
import RaftStore.Consensus.Order
import RaftStore.Collections.Ranking
import Mathlib.Tactic.MkIffOfInductiveProp

namespace RaftStore
namespace Raft

open Consensus Collections

/-!
# What the handlers do

One lemma for each handler that says what it returns, so that later proofs do
not unfold it.  The replication handler is described through `splice`, the log
that results from inserting the entries of a request after a given index.
-/

/-- Within the log, the term at an index is the last term of the prefix that
ends there. -/
theorem termAt_eq_lastTerm {log : RaftLog} {body : List LogEntry}
    (holds : log = ⟨sentinel :: body⟩) {index : Nat} (inside : index ≤ body.length) :
    log.termAt index = lastTerm LogEntry.term (body.take index) := by
  subst holds
  cases index with
  | zero => rfl
  | succ index =>
      have below : index < body.length := inside
      rw [RaftLog.termAt_succ, RaftLog.body_mk, List.take_add_one,
        List.getElem?_eq_getElem below, Option.toList_some, lastTerm_concat]
      rfl

/-! ## Inserting entries -/

/-- How many leading entries have the same terms as the ones already present. -/
def matchingTerms : List LogEntry -> List LogEntry -> Nat
  | entry :: entries, present :: rest =>
      if present.term = entry.term then matchingTerms entries rest + 1 else 0
  | _, _ => 0

/-- The entries of a log after inserting `entries` behind its first `start`
ones: nothing changes if all of them match, and otherwise the log is cut where
the match ends and the others are appended. -/
def splice (log : List LogEntry) (start : Nat) (entries : List LogEntry) : List LogEntry :=
  let matched := matchingTerms entries (log.drop start)
  if matched < entries.length then log.take (start + matched) ++ entries.drop matched else log

theorem matchingTerms_le_left (entries present : List LogEntry) :
    matchingTerms entries present ≤ entries.length := by
  induction entries generalizing present with
  | nil => simp [matchingTerms]
  | cons entry entries inductionHypothesis =>
      cases present with
      | nil => simp [matchingTerms]
      | cons first rest =>
          simp only [matchingTerms]
          split
          · exact Nat.succ_le_succ (inductionHypothesis rest)
          · exact Nat.zero_le _

theorem matchingTerms_le_right (entries present : List LogEntry) :
    matchingTerms entries present ≤ present.length := by
  induction entries generalizing present with
  | nil => simp [matchingTerms]
  | cons entry entries inductionHypothesis =>
      cases present with
      | nil => simp [matchingTerms]
      | cons first rest =>
          simp only [matchingTerms]
          split
          · exact Nat.succ_le_succ (inductionHypothesis rest)
          · exact Nat.zero_le _

/-- Within the match the terms are the same, and right after it they differ or
the log ends. -/
theorem matchingTerms_spec (entries present : List LogEntry) :
    (forall position, position < matchingTerms entries present ->
      (present[position]?.map LogEntry.term) = (entries[position]?.map LogEntry.term)) ∧
    (matchingTerms entries present < entries.length ->
      (present[matchingTerms entries present]?.map LogEntry.term) ≠
        (entries[matchingTerms entries present]?.map LogEntry.term)) := by
  induction entries generalizing present with
  | nil => simp [matchingTerms]
  | cons entry entries inductionHypothesis =>
      cases present with
      | nil => simp [matchingTerms]
      | cons first rest =>
          by_cases same : first.term = entry.term
          · simp only [matchingTerms, if_pos same]
            rcases inductionHypothesis rest with ⟨inside, after⟩
            constructor
            · intro position below
              cases position with
              | zero => simp [same]
              | succ position =>
                  simpa using inside position (Nat.lt_of_succ_lt_succ below)
            · intro below
              simpa using after (by simpa using below)
          · simp [matchingTerms, same]

/-- The matching entries have the terms of those already present. -/
theorem map_take_matchingTerms (entries present : List LogEntry) :
    (present.take (matchingTerms entries present)).map LogEntry.term =
      (entries.take (matchingTerms entries present)).map LogEntry.term := by
  fun_induction matchingTerms entries present with
  | case1 entry entries head rest same inductionHypothesis =>
      rw [List.take_succ_cons, List.take_succ_cons, List.map_cons, List.map_cons, same,
        inductionHypothesis]
  | case2 entry entries head rest different => rfl
  | case3 entries present _ => rfl

/-- The terms of a splice are those of the log up to its start, and then those of the
entries. -/
theorem map_term_splice {log entries : List LogEntry} {start : Nat}
    (unfinished : matchingTerms entries (log.drop start) < entries.length) :
    (splice log start entries).map LogEntry.term =
      (log.take start).map LogEntry.term ++ entries.map LogEntry.term := by
  have matched := map_take_matchingTerms entries (log.drop start)
  unfold splice
  dsimp only
  rw [if_pos unfinished, List.take_add, List.map_append, List.map_append, matched,
    List.append_assoc, ← List.map_append, List.take_append_drop]

/-- Entries that are already there all match. -/
theorem matchingTerms_append (entries tail : List LogEntry) :
    matchingTerms entries (entries ++ tail) = entries.length := by
  induction entries with
  | nil => simp [matchingTerms]
  | cons entry entries inductionHypothesis =>
      rw [List.cons_append, matchingTerms, if_pos rfl, inductionHypothesis, List.length_cons]

/-- The conflict scan, started right behind `base`, finds the end of the match. -/
theorem scanConflicts_eq (head : LogEntry) (base tail entries : List LogEntry) :
    scanConflicts ⟨head :: (base ++ tail)⟩ (base.length + 1) entries =
      (⟨head :: (if matchingTerms entries tail < entries.length then
          base ++ tail.take (matchingTerms entries tail) else base ++ tail)⟩,
        base.length + 1 + matchingTerms entries tail) := by
  induction entries generalizing base tail with
  | nil => simp [scanConflicts, matchingTerms]
  | cons entry entries inductionHypothesis =>
      cases tail with
      | nil =>
          have beyond : RaftLog.termAt ⟨head :: (base ++ [])⟩ (base.length + 1) = 0 :=
            RaftLog.termAt_of_gt (by simp [RaftLog.lastIndex])
          simp only [scanConflicts]
          rw [if_pos ⟨beyond, by simp [RaftLog.lastIndex]⟩]
          simp [matchingTerms]
      | cons first rest =>
          have here : RaftLog.termAt ⟨head :: (base ++ first :: rest)⟩ (base.length + 1) =
              first.term := by
            simp [RaftLog.termAt]
          have inside : ¬ (base.length + 1 >
              RaftLog.lastIndex ⟨head :: (base ++ first :: rest)⟩) := by
            simp [RaftLog.lastIndex]
          simp only [scanConflicts]
          rw [if_neg (fun both => inside both.2), here]
          by_cases same : first.term = entry.term
          · rw [if_neg (not_not.mpr same)]
            have moved := inductionHypothesis (base ++ [first]) rest
            simp only [List.append_assoc, List.singleton_append, List.length_append,
              List.length_singleton] at moved
            rw [moved]
            simp only [matchingTerms, if_pos same, List.length_cons, Nat.add_lt_add_iff_right,
              List.take_succ_cons]
            congr 1
            omega
          · rw [if_pos same]
            simp [matchingTerms, if_neg same, RaftLog.truncateFrom]

/-- Wherever the scan starts, it stops behind some of the entries, and the log is
kept whole if it passed all of them and cut there otherwise. -/
theorem scanConflicts_shape {log : RaftLog} (kept : log.entries ≠ []) (start : Nat)
    (entries : List LogEntry) :
    Exists fun matched => (scanConflicts log start entries).2 = start + matched ∧
      (matched = 0 ∨ start + matched ≤ log.entries.length) ∧
      (matched = entries.length ∧ (scanConflicts log start entries).1 = log ∨
        matched < entries.length ∧
          (scanConflicts log start entries).1 = ⟨log.entries.take (start + matched)⟩) := by
  have someEntry : 0 < log.entries.length := List.length_pos_iff.mpr kept
  induction entries generalizing start with
  | nil => exact ⟨0, rfl, Or.inl rfl, Or.inl ⟨rfl, rfl⟩⟩
  | cons entry rest inductionHypothesis =>
      simp only [scanConflicts]
      split
      · next beyond =>
          have whole : log.entries.take start = log.entries := by
            apply List.take_of_length_le
            have outside := beyond.2
            unfold RaftLog.lastIndex at outside
            omega
          exact ⟨0, rfl, Or.inl rfl, Or.inr ⟨Nat.zero_lt_succ _, by rw [Nat.add_zero, whole]⟩⟩
      · next inside =>
          split
          · refine ⟨0, rfl, Or.inl rfl, Or.inr ⟨Nat.zero_lt_succ _, ?_⟩⟩
            rw [Nat.add_zero, RaftLog.truncateFrom]
            split
            · rfl
            · next short => rw [List.take_of_length_le (Nat.le_of_not_lt short)]
          · have reached : start + 1 ≤ log.entries.length := by
              by_contra short
              have outside : start > log.lastIndex := by
                unfold RaftLog.lastIndex
                omega
              exact inside ⟨RaftLog.termAt_of_gt outside, outside⟩
            rcases inductionHypothesis (start + 1) with ⟨matched, stopped, bound, result⟩
            refine ⟨matched + 1, by rw [stopped]; omega, Or.inr (by omega), ?_⟩
            rw [show start + (matched + 1) = start + 1 + matched by omega]
            rcases result with ⟨all, same⟩ | ⟨unfinished, cut⟩
            · exact Or.inl ⟨by rw [all]; rfl, same⟩
            · exact Or.inr ⟨Nat.succ_lt_succ unfinished, cut⟩

namespace RaftNode

/-! ## Timers and saves touch nothing else -/

section Bookkeeping

variable (node : RaftNode)

@[simp] theorem persist_persister :
    node.persist.persister = node.persister.map (fun p => p.save node.persistentState) := rfl

@[simp] theorem stepDown_state (term : Nat) :
    (node.stepDown term).state = node.state.becomeFollower term := rfl
@[simp] theorem acceptLeader_state (request : AppendEntriesRequest) :
    (node.acceptLeader request).state =
      { node.state.becomeFollower request.term with leaderId := some request.leaderId } := rfl

end Bookkeeping

/-! ## Construction -/

/-- What a node holds in memory when it has just come up. -/
structure Awakened (id : Nat) (peers : List Nat) (node : RaftNode) : Prop where
  id : node.state.id = id
  peers : node.state.peers = peers
  role : node.state.role = .follower
  leader : node.state.leaderId = none
  commit : node.state.commitIndex = 0
  applied : node.state.lastApplied = 0
  next : node.state.nextIndex = []

/-- Whatever was loaded, it gives the node its term, its vote and its log only. -/
theorem awakened_withPersistence {ε : Type} (id : Nat) (peers : List Nat)
    (persister : StatePersister) (loaded : Except ε (Option PersistentState)) :
    Awakened id peers (withPersistence id peers persister loaded) := by
  unfold withPersistence
  split <;> exact ⟨rfl, rfl, rfl, rfl, rfl, rfl, rfl⟩

/-! ## Saved state -/

/-- The newest save of the node is its current persistent state, or nothing was
saved and the node still has its initial one. -/
def Saved (node : RaftNode) : Prop :=
  Exists fun persister => node.persister = some persister ∧
    (persister.load = some node.persistentState ∨
      persister.load = none ∧ node.persistentState = ⟨0, none, RaftLog.new.toEntries⟩)

theorem saved_persist {node : RaftNode} (enabled : node.persister.isSome) :
    node.persist.Saved := by
  cases present : node.persister with
  | none => simp [present] at enabled
  | some persister =>
      exact ⟨persister.save node.persistentState, by simp [present], Or.inl rfl⟩

theorem Saved.isSome {node : RaftNode} (saved : node.Saved) : node.persister.isSome := by
  rcases saved with ⟨persister, present, _⟩
  simp [present]

/-- A change that leaves the persister and the persistent fields alone. -/
theorem Saved.congr {node other : RaftNode} (saved : node.Saved)
    (samePersister : other.persister = node.persister)
    (sameState : other.persistentState = node.persistentState) : other.Saved := by
  rcases saved with ⟨persister, present, kept⟩
  exact ⟨persister, samePersister.trans present, by rw [sameState]; exact kept⟩

/-! ## Commit and application -/

/-- The actions that apply the entries above `low` and up to `high`. -/
def applications (node : RaftNode) (low high : Nat) : List Action :=
  (List.range' (low + 1) (high - low)).flatMap node.applyAction

/-- Only real commands of the log are applied, at their own index. -/
theorem mem_applyAction {node : RaftNode} {index : Nat} {action : Action} :
    action ∈ node.applyAction index <->
      Exists fun entry => node.state.log.get index = some entry ∧ entry.command ≠ .noop ∧
        action = .applyEntry index entry.command := by
  unfold applyAction
  cases present : node.state.log.get index with
  | none => simp
  | some entry =>
      rcases entry with ⟨term, command⟩
      cases command <;> simp

theorem mem_applications {node : RaftNode} {low high : Nat} {action : Action} :
    action ∈ node.applications low high <->
      Exists fun index => low < index ∧ index ≤ high ∧ Exists fun entry =>
        node.state.log.get index = some entry ∧ entry.command ≠ .noop ∧
          action = .applyEntry index entry.command := by
  unfold applications
  simp only [List.mem_flatMap, List.mem_range'_1, mem_applyAction]
  constructor
  · rintro ⟨index, bounds, found⟩
    exact ⟨index, by omega, by omega, found⟩
  · rintro ⟨index, above, below, found⟩
    exact ⟨index, by omega, found⟩

theorem applyLoop_eq (node : RaftNode) (count : Nat) :
    node.applyLoop count =
      ({ node with state := { node.state with lastApplied := node.state.lastApplied + count } },
        (List.range' (node.state.lastApplied + 1) count).flatMap node.applyAction) := by
  induction count generalizing node with
  | zero => rfl
  | succ count inductionHypothesis =>
      simp only [applyLoop, inductionHypothesis, List.range'_succ, List.flatMap_cons]
      refine Prod.ext ?_ rfl
      simp only [Nat.add_assoc, Nat.add_comm 1 count]

theorem applyCommittedEntries_eq (node : RaftNode) (newCommitIndex : Nat) :
    node.applyCommittedEntries newCommitIndex =
      ({ node with state := { node.state with
          lastApplied := max node.state.lastApplied newCommitIndex
          commitIndex := newCommitIndex } },
        node.applications node.state.lastApplied newCommitIndex) := by
  have reached : node.state.lastApplied + (newCommitIndex - node.state.lastApplied) =
      max node.state.lastApplied newCommitIndex := by omega
  unfold applyCommittedEntries
  rw [applyLoop_eq, reached]
  rfl

/-- What advancing the commit index changes: two counters, nothing else. -/
def withCommit (node : RaftNode) (lastApplied commitIndex : Nat) : RaftNode :=
  { node with state := { node.state with
      lastApplied := lastApplied
      commitIndex := commitIndex } }

/-- The commit index the scan arrives at. -/
def scannedCommit (node : RaftNode) : Nat :=
  (List.range' (node.state.commitIndex + 1)
    (node.state.log.lastIndex - node.state.commitIndex)).foldl node.commitScan
      node.state.commitIndex

/-- A leader may commit up to this index: it is new, the entry there is of the
current term, and enough nodes are known to have it. -/
@[mk_iff]
structure Committable (node : RaftNode) (index : Nat) : Prop where
  fresh : node.state.commitIndex < index
  inside : index ≤ node.state.log.lastIndex
  current : node.state.log.termAt index = node.state.currentTerm
  replicated : node.state.majorityCount ≤ node.replicationCount index

theorem commitScan_of_pos (node : RaftNode) (commitIndex : Nat) {index : Nat}
    (current : node.state.log.termAt index = node.state.currentTerm)
    (replicated : node.state.majorityCount ≤ node.replicationCount index) :
    node.commitScan commitIndex index = index := by
  rw [commitScan, if_neg (not_not.mpr current), if_pos replicated]

theorem commitScan_of_neg (node : RaftNode) (commitIndex : Nat) {index : Nat}
    (refused : ¬ (node.state.log.termAt index = node.state.currentTerm ∧
      node.state.majorityCount ≤ node.replicationCount index)) :
    node.commitScan commitIndex index = commitIndex := by
  unfold commitScan
  split
  · rfl
  · next current => exact if_neg (fun replicated => refused ⟨not_not.mp current, replicated⟩)

/-- The scan arrives at the last index up to which a leader may commit. -/
theorem isGreatestOr_scannedCommit (node : RaftNode) :
    IsGreatestOr {index | node.Committable index} node.state.commitIndex node.scannedCommit := by
  have scanned := isGreatestOr_foldl
    (fun index => node.state.log.termAt index = node.state.currentTerm ∧
      node.state.majorityCount ≤ node.replicationCount index)
    (fun kept index holds => node.commitScan_of_pos kept holds.1 holds.2)
    (fun kept index fails => node.commitScan_of_neg kept fails)
    (node.state.commitIndex + 1) (node.state.log.lastIndex - node.state.commitIndex)
    node.state.commitIndex
  apply scanned.congr
  intro index
  constructor
  · rintro ⟨above, below, current, replicated⟩
    exact ⟨above, by omega, current, replicated⟩
  · rintro ⟨fresh, inside, current, replicated⟩
    exact ⟨fresh, by omega, current, replicated⟩

/-- The new commit index of a leader is the old one, or a later index of its
log, of its current term and replicated on a majority. -/
theorem scannedCommit_cases (node : RaftNode) :
    node.scannedCommit = node.state.commitIndex ∨ node.Committable node.scannedCommit := by
  rcases node.isGreatestOr_scannedCommit with ⟨member, _⟩ | ⟨_, unmoved⟩
  · exact Or.inr member
  · exact Or.inl unmoved

theorem maybeAdvanceCommitIndex_eq (node : RaftNode) :
    node.maybeAdvanceCommitIndex =
      if node.scannedCommit > node.state.commitIndex then
        (node.withCommit (max node.state.lastApplied node.scannedCommit) node.scannedCommit,
          node.applications node.state.lastApplied node.scannedCommit)
      else (node, []) := by
  have unfolded : node.maybeAdvanceCommitIndex =
      if node.scannedCommit > node.state.commitIndex then
        (node.withCommit node.state.lastApplied node.scannedCommit).applyCommittedEntries
          node.scannedCommit
      else (node.withCommit node.state.lastApplied node.scannedCommit, []) := rfl
  rw [unfolded]
  by_cases advanced : node.scannedCommit > node.state.commitIndex
  · rw [if_pos advanced, if_pos advanced, applyCommittedEntries_eq]
    rfl
  · have same : node.scannedCommit = node.state.commitIndex := by
      rcases node.scannedCommit_cases with unmoved | ⟨above, _⟩
      · exact unmoved
      · exact absurd above advanced
    rw [if_neg advanced, if_neg advanced, same]
    rfl

theorem followCommit_eq (node : RaftNode) (leaderCommit : Nat) :
    node.followCommit leaderCommit =
      if leaderCommit > node.state.commitIndex then
        (node.withCommit (max node.state.lastApplied (min leaderCommit node.state.log.lastIndex))
            (min leaderCommit node.state.log.lastIndex),
          node.applications node.state.lastApplied (min leaderCommit node.state.log.lastIndex))
      else (node, []) := by
  unfold followCommit
  split
  · rw [applyCommittedEntries_eq]
    rfl
  · rfl

/-- Both commit rules move two counters and apply a range of entries. -/
theorem maybeAdvanceCommitIndex_shape (node : RaftNode) :
    Exists fun lastApplied => Exists fun commitIndex => Exists fun low => Exists fun high =>
      node.maybeAdvanceCommitIndex =
        (node.withCommit lastApplied commitIndex, node.applications low high) := by
  rw [maybeAdvanceCommitIndex_eq]
  split
  · exact ⟨_, _, _, _, rfl⟩
  · exact ⟨node.state.lastApplied, node.state.commitIndex, 0, 0, rfl⟩

theorem followCommit_shape (node : RaftNode) (leaderCommit : Nat) :
    Exists fun lastApplied => Exists fun commitIndex => Exists fun low => Exists fun high =>
      node.followCommit leaderCommit =
        (node.withCommit lastApplied commitIndex, node.applications low high) := by
  rw [followCommit_eq]
  split
  · exact ⟨_, _, _, _, rfl⟩
  · exact ⟨node.state.lastApplied, node.state.commitIndex, 0, 0, rfl⟩

/-! ## Inserting the entries of a request -/

theorem insertEntries_of_empty (node : RaftNode) {request : AppendEntriesRequest}
    (empty : request.entries = []) : node.insertEntries request = .ok node := by
  simp [insertEntries, empty]

/-- An insertion changes the log and the saves, nothing else. -/
theorem insertEntries_shape {node inserted : RaftNode} {request : AppendEntriesRequest}
    (ok : node.insertEntries request = .ok inserted) :
    Exists fun log => Exists fun persister =>
      inserted = { node with state := { node.state with log := log }, persister := persister } := by
  unfold insertEntries at ok
  split at ok
  · cases ok
    exact ⟨_, _, rfl⟩
  · rcases Outcome.bind_eq_ok.mp ok with ⟨_, _, rest⟩
    simp only at rest
    split at rest
    · cases rest
      exact ⟨_, _, rfl⟩
    · rcases Outcome.bind_eq_ok.mp rest with ⟨_, _, done⟩
      cases done
      exact ⟨_, _, rfl⟩

/-- An insertion that returns has taken an index that fits a word. -/
theorem insertEntries_fits {node result : RaftNode} {request : AppendEntriesRequest}
    (nonempty : request.entries ≠ []) (inserted : node.insertEntries request = .ok result) :
    request.prevLogIndex + 1 < wordSize := by
  unfold insertEntries at inserted
  rw [if_neg (by rw [List.isEmpty_iff]; exact nonempty)] at inserted
  rcases Outcome.bind_eq_ok.mp inserted with ⟨firstIndex, added, _⟩
  exact (checkedAdd_eq_ok.mp added).1

/-- The node after it has inserted and saved all but the first `matched` entries of
a request. -/
def withEntries (node : RaftNode) (request : AppendEntriesRequest) (matched : Nat) : RaftNode :=
  let log : RaftLog := ⟨node.state.log.entries.take (request.prevLogIndex + 1 + matched) ++
    request.entries.drop matched⟩
  ({ node with state := { node.state with log := log } }).persist

/-- Inserting behind an index the log reaches keeps the log up to the end of the
match and puts the other entries behind it, if there are any and they fit. -/
theorem insertEntries_eq {node : RaftNode} {request : AppendEntriesRequest} {head : LogEntry}
    {body : List LogEntry} (holds : node.state.log = ⟨head :: body⟩)
    (inside : request.prevLogIndex ≤ body.length) (small : request.prevLogIndex + 1 < wordSize) :
    node.insertEntries request =
      if matchingTerms request.entries (body.drop request.prevLogIndex) <
          request.entries.length then
        if request.prevLogIndex + 1 + request.entries.length ≤ vecCapacity then
          .ok (node.withEntries request
            (matchingTerms request.entries (body.drop request.prevLogIndex)))
        else .error .capacity
      else .ok node := by
  have baseLength : (body.take request.prevLogIndex).length = request.prevLogIndex :=
    List.length_take_of_le inside
  have scanned := scanConflicts_eq head (body.take request.prevLogIndex)
    (body.drop request.prevLogIndex) request.entries
  rw [List.take_append_drop, baseLength, ← holds] at scanned
  have shorter := matchingTerms_le_right request.entries (body.drop request.prevLogIndex)
  rw [List.length_drop] at shorter
  generalize matchingTerms request.entries (body.drop request.prevLogIndex) = matched
    at scanned shorter
  by_cases empty : request.entries = []
  · rw [insertEntries_of_empty node empty, if_neg (by rw [empty]; exact Nat.not_lt_zero _)]
  · have added : checkedAdd request.prevLogIndex 1 = .ok (request.prevLogIndex + 1) :=
      checkedAdd_eq_ok.mpr ⟨small, rfl⟩
    unfold insertEntries
    rw [if_neg (by rw [List.isEmpty_iff]; exact empty), added]
    change (if (request.entries.drop ((scanConflicts node.state.log (request.prevLogIndex + 1)
      request.entries).2 - (request.prevLogIndex + 1))).isEmpty then _ else _) = _
    rw [scanned, Nat.add_sub_cancel_left]
    by_cases unfinished : matched < request.entries.length
    · have remaining : ¬ (request.entries.drop matched).isEmpty = true := by
        rw [List.isEmpty_iff, List.drop_eq_nil_iff]
        omega
      have cut : head :: (body.take request.prevLogIndex ++
          (body.drop request.prevLogIndex).take matched) =
            node.state.log.entries.take (request.prevLogIndex + 1 + matched) := by
        rw [holds, ← List.take_add, Nat.add_right_comm, List.take_succ_cons]
      have length : (node.state.log.entries.take (request.prevLogIndex + 1 + matched)).length +
          (request.entries.drop matched).length =
            request.prevLogIndex + 1 + request.entries.length := by
        rw [List.length_take_of_le (by rw [holds, List.length_cons]; omega), List.length_drop]
        omega
      rw [if_neg remaining, if_pos unfinished]
      simp only [if_pos unfinished, cut, RaftLog.appendEntries, length]
      by_cases fits : request.prevLogIndex + 1 + request.entries.length ≤ vecCapacity
      · rw [if_pos fits, if_pos fits]
        rfl
      · rw [if_neg fits, if_neg fits]
        rfl
    · have finished : (request.entries.drop matched).isEmpty = true := by
        rw [List.isEmpty_iff, List.drop_eq_nil_iff]
        omega
      rw [if_pos finished, if_neg unfinished]
      simp only [if_neg unfinished, ← holds]
      rfl

/-- Inserting behind an index the log reaches splices the entries in.  The node
is saved exactly when its log changes. -/
theorem insertEntries_eq_ok {node result : RaftNode} {request : AppendEntriesRequest}
    {body : List LogEntry} (holds : node.state.log = ⟨sentinel :: body⟩)
    (inside : request.prevLogIndex ≤ body.length)
    (inserted : node.insertEntries request = .ok result) :
    let matched := matchingTerms request.entries (body.drop request.prevLogIndex)
    let log : RaftLog := ⟨sentinel :: splice body request.prevLogIndex request.entries⟩
    (matched < request.entries.length ∧ log.entries.length ≤ vecCapacity ∧
      result = ({ node with state := { node.state with log := log } }).persist) ∨
    (matched = request.entries.length ∧ splice body request.prevLogIndex request.entries = body ∧
      result = node) := by
  intro matched log
  have bound : matched ≤ request.entries.length := matchingTerms_le_left _ _
  by_cases unfinished : matched < request.entries.length
  · have nonempty : request.entries ≠ [] := by
      intro empty
      rw [empty] at unfinished
      exact Nat.not_lt_zero _ unfinished
    have spliced : log.entries = node.state.log.entries.take (request.prevLogIndex + 1 + matched) ++
        request.entries.drop matched := by
      rw [holds, Nat.add_right_comm, List.take_succ_cons]
      change sentinel :: splice body request.prevLogIndex request.entries = _
      rw [splice, if_pos unfinished]
      rfl
    have small : request.prevLogIndex + 1 < wordSize := insertEntries_fits nonempty inserted
    have shorter := matchingTerms_le_right request.entries (body.drop request.prevLogIndex)
    rw [List.length_drop] at shorter
    rw [insertEntries_eq holds inside small, if_pos unfinished] at inserted
    split at inserted
    · next fits =>
        cases inserted
        refine Or.inl ⟨unfinished, ?_, ?_⟩
        · rw [spliced, List.length_append, List.length_drop,
            List.length_take_of_le (by rw [holds, List.length_cons]; omega)]
          omega
        · have same : (⟨log.entries⟩ : RaftLog) = log := rfl
          rw [withEntries, ← spliced, same]
    · cases inserted
  · have all : matched = request.entries.length := by omega
    refine Or.inr ⟨all, by rw [splice, if_neg unfinished], ?_⟩
    by_cases empty : request.entries = []
    · rw [insertEntries_of_empty node empty] at inserted
      exact (Except.ok.inj inserted).symm
    · rw [insertEntries_eq holds inside (insertEntries_fits empty inserted), if_neg unfinished]
        at inserted
      exact (Except.ok.inj inserted).symm

/-- An insertion, whatever the request: it panics on an index that does not fit a
word or on a log that does not fit a vector, and it saves if the log changes. -/
theorem insertEntries_cases {node : RaftNode} (kept : node.state.log.entries ≠ [])
    (request : AppendEntriesRequest) :
    (request.entries = [] ∧ node.insertEntries request = .ok node) ∨
    (request.entries ≠ [] ∧ wordSize ≤ request.prevLogIndex + 1 ∧
      node.insertEntries request = .error .overflow) ∨
    (request.entries ≠ [] ∧ request.prevLogIndex + 1 < wordSize ∧ Exists fun matched =>
      (matched = 0 ∨ request.prevLogIndex + 1 + matched ≤ node.state.log.entries.length) ∧
      (matched = request.entries.length ∧ node.insertEntries request = .ok node ∨
        matched < request.entries.length ∧ node.insertEntries request =
          if (node.withEntries request matched).state.log.entries.length ≤ vecCapacity then
            .ok (node.withEntries request matched) else .error .capacity)) := by
  by_cases empty : request.entries = []
  · exact Or.inl ⟨empty, insertEntries_of_empty node empty⟩
  · have nonempty : request.entries.isEmpty = false := List.isEmpty_eq_false_iff.mpr empty
    unfold insertEntries checkedAdd
    rw [nonempty]
    simp only [Bool.false_eq_true, if_false]
    by_cases fits : request.prevLogIndex + 1 < wordSize
    · rw [if_pos fits]
      refine Or.inr (Or.inr ⟨empty, fits, ?_⟩)
      rcases scanConflicts_shape kept (request.prevLogIndex + 1) request.entries with
        ⟨matched, stopped, bound, result⟩
      refine ⟨matched, bound, ?_⟩
      simp only [bind, Except.bind, stopped, Nat.add_sub_cancel_left]
      rcases result with ⟨all, same⟩ | ⟨unfinished, cut⟩
      · refine Or.inl ⟨all, ?_⟩
        rw [all, List.drop_length, same]
        rfl
      · refine Or.inr ⟨unfinished, ?_⟩
        have remaining : (request.entries.drop matched).isEmpty = false := by
          rw [List.isEmpty_eq_false_iff, Ne, List.drop_eq_nil_iff]
          omega
        rw [remaining, cut]
        simp only [Bool.false_eq_true, if_false, RaftLog.appendEntries]
        rw [← List.length_append]
        by_cases room : (node.state.log.entries.take (request.prevLogIndex + 1 + matched) ++
            request.entries.drop matched).length ≤ vecCapacity
        · rw [if_pos room]
          exact (if_pos room).symm
        · rw [if_neg room]
          exact (if_neg room).symm
    · rw [if_neg fits]
      exact Or.inr (Or.inl ⟨empty, Nat.le_of_not_lt fits, rfl⟩)

/-! ## Elections and votes -/

/-- The node after it has started an election, before it counts its own vote. -/
def candidacy (node : RaftNode) : RaftNode :=
  let state := { node.state with
    currentTerm := node.state.currentTerm + 1
    role := .candidate
    votedFor := some node.state.id
    leaderId := none }
  ({ node with state := state, votesReceived := {node.state.id} }).resetElectionTimeout.persist

theorem startElection_eq_ok {node : RaftNode} {result : RaftNode × List Action} :
    node.startElection = .ok result <->
      node.state.currentTerm + 1 < wordSize ∧
      result = if node.candidacy.votesReceived.card >= node.candidacy.state.majorityCount then
        node.candidacy.winElection else (node.candidacy, node.candidacy.requestVotes) := by
  unfold startElection
  rw [Outcome.bind_eq_ok]
  constructor
  · rintro ⟨state, became, returned⟩
    rcases RaftState.becomeCandidate_eq_ok.mp became with ⟨fits, rfl⟩
    refine ⟨fits, ?_⟩
    change (if node.candidacy.votesReceived.card >= node.candidacy.state.majorityCount then
      Except.ok node.candidacy.winElection
      else Except.ok (node.candidacy, node.candidacy.requestVotes)) = Except.ok result at returned
    split at returned <;> cases returned <;> simp only [*, if_true, if_false]
  · rintro ⟨fits, rfl⟩
    refine ⟨_, RaftState.becomeCandidate_eq_ok.mpr ⟨fits, rfl⟩, ?_⟩
    change (if node.candidacy.votesReceived.card >= node.candidacy.state.majorityCount then
      Except.ok node.candidacy.winElection
      else Except.ok (node.candidacy, node.candidacy.requestVotes)) = _
    split <;> rfl

/-- A tick moves a timer, sends heartbeats, or starts an election. -/
theorem tick_cases {node after : RaftNode} {actions : List Action}
    (ticked : node.tick = .ok (after, actions)) :
    (Exists fun timeout => after = { node with electionTimeout := timeout } ∧ actions = []) ∨
    (node.state.role = .leader ∧ Exists fun timeout =>
      after = { node with heartbeatTimeout := timeout } ∧
        (actions = [] ∨ actions = node.sendHeartbeats)) ∨
    (node.state.role ≠ .leader ∧ Exists fun timeout =>
      ({ node with electionTimeout := timeout } : RaftNode).startElection = .ok (after, actions)) := by
  unfold tick at ticked
  have election : node.tickElection = .ok (after, actions) ->
      (Exists fun timeout => after = { node with electionTimeout := timeout } ∧ actions = []) ∨
      (Exists fun timeout =>
        ({ node with electionTimeout := timeout } : RaftNode).startElection = .ok (after, actions)) := by
    intro counted
    simp only [tickElection] at counted
    split at counted
    · cases counted
      exact Or.inl ⟨_, rfl, rfl⟩
    · exact Or.inr ⟨_, counted⟩
  cases role : node.state.role with
  | follower =>
      rw [role] at ticked
      rcases election ticked with waited | started
      · exact Or.inl waited
      · exact Or.inr (Or.inr ⟨by simp, started⟩)
  | candidate =>
      rw [role] at ticked
      rcases election ticked with waited | started
      · exact Or.inl waited
      · exact Or.inr (Or.inr ⟨by simp, started⟩)
  | leader =>
      rw [role] at ticked
      simp only [Except.ok.injEq, tickHeartbeat] at ticked
      refine Or.inr (Or.inl ⟨rfl, ?_⟩)
      split at ticked
      · cases ticked
        exact ⟨_, rfl, Or.inl rfl⟩
      · cases ticked
        exact ⟨_, rfl, Or.inr rfl⟩

/-- Step down if the term is higher than the current one. -/
def raiseTerm (node : RaftNode) (term : Nat) : RaftNode :=
  if term > node.state.currentTerm then node.stepDown term else node

/-- Record a vote and save it. -/
def castVote (node : RaftNode) (candidateId : Nat) : RaftNode :=
  ({ node with state := { node.state with
      votedFor := some candidateId } }).resetElectionTimeout.persist

theorem raiseTerm_currentTerm {node : RaftNode} {term : Nat}
    (current : node.state.currentTerm ≤ term) : (node.raiseTerm term).state.currentTerm = term := by
  unfold raiseTerm
  split
  · simpa using current
  · omega

theorem raiseTerm_log (node : RaftNode) (term : Nat) :
    (node.raiseTerm term).state.log = node.state.log := by
  unfold raiseTerm
  split <;> simp

/-- A node that leads has not stepped up. -/
theorem raiseTerm_of_leads {node : RaftNode} {term : Nat}
    (leads : (node.raiseTerm term).state.role = .leader) : node.raiseTerm term = node := by
  unfold raiseTerm at leads ⊢
  split at leads
  · simp at leads
  · next lower => exact if_neg lower

/-- A vote request is refused, or answered in its own term after stepping up to
it, with or without a vote. -/
theorem handleRequestVote_cases (node : RaftNode) (request : RequestVoteRequest) :
    (request.term < node.state.currentTerm ∧ node.handleRequestVote request =
      (node, [.sendRequestVoteResponse request.candidateId ⟨node.state.currentTerm, false⟩])) ∨
    (node.state.currentTerm ≤ request.term ∧
      canVote (node.raiseTerm request.term).state.votedFor request.candidateId = true ∧
      candidateUpToDate node.state.log request = true ∧
      node.handleRequestVote request =
        ((node.raiseTerm request.term).castVote request.candidateId,
          [.sendRequestVoteResponse request.candidateId ⟨request.term, true⟩])) ∨
    (node.state.currentTerm ≤ request.term ∧
      (canVote (node.raiseTerm request.term).state.votedFor request.candidateId &&
        candidateUpToDate node.state.log request) = false ∧
      node.handleRequestVote request =
        (node.raiseTerm request.term,
          [.sendRequestVoteResponse request.candidateId ⟨request.term, false⟩])) := by
  by_cases stale : request.term < node.state.currentTerm
  · left
    exact ⟨stale, by rw [handleRequestVote, if_pos stale]⟩
  · right
    have current : node.state.currentTerm ≤ request.term := Nat.le_of_not_lt stale
    have unfolded : node.handleRequestVote request =
        (if (canVote (node.raiseTerm request.term).state.votedFor request.candidateId &&
            candidateUpToDate (node.raiseTerm request.term).state.log request) = true then
          (node.raiseTerm request.term).castVote request.candidateId
        else node.raiseTerm request.term,
        [.sendRequestVoteResponse request.candidateId
          ⟨(if (canVote (node.raiseTerm request.term).state.votedFor request.candidateId &&
              candidateUpToDate (node.raiseTerm request.term).state.log request) = true then
            (node.raiseTerm request.term).castVote request.candidateId
          else node.raiseTerm request.term).state.currentTerm,
          canVote (node.raiseTerm request.term).state.votedFor request.candidateId &&
            candidateUpToDate (node.raiseTerm request.term).state.log request⟩]) := by
      rw [handleRequestVote, if_neg stale]
      rfl
    rw [unfolded, raiseTerm_log]
    cases granted : canVote (node.raiseTerm request.term).state.votedFor request.candidateId &&
        candidateUpToDate node.state.log request with
    | true =>
        rcases Bool.and_eq_true_iff.mp granted with ⟨free, upToDate⟩
        refine Or.inl ⟨current, free, upToDate, ?_⟩
        simp only [if_true]
        rw [show ((node.raiseTerm request.term).castVote request.candidateId).state.currentTerm =
          request.term from raiseTerm_currentTerm current]
    | false =>
        refine Or.inr ⟨current, rfl, ?_⟩
        simp only [Bool.false_eq_true, if_false]
        rw [raiseTerm_currentTerm current]

/-- The node after it has counted a vote response. -/
def countVote (node : RaftNode) (sender : Nat) (response : RequestVoteResponse) : RaftNode :=
  if response.voteGranted then { node with votesReceived := insert sender node.votesReceived }
  else node

theorem countVote_state (node : RaftNode) (sender : Nat) (response : RequestVoteResponse) :
    (node.countVote sender response).state = node.state := by
  unfold countVote
  split <;> rfl

/-- A vote response is ignored, makes the candidate step down, or is counted in
the current term. -/
theorem handleRequestVoteResponse_cases (node : RaftNode) (sender : Nat)
    (response : RequestVoteResponse) :
    node.handleRequestVoteResponse sender response = (node, []) ∨
    (node.state.role = .candidate ∧ node.state.currentTerm < response.term ∧
      node.handleRequestVoteResponse sender response = (node.stepDown response.term, [])) ∨
    (node.state.role = .candidate ∧ response.term = node.state.currentTerm ∧
      node.handleRequestVoteResponse sender response =
        if (node.countVote sender response).votesReceived.card >=
            (node.countVote sender response).state.majorityCount then
          (node.countVote sender response).winElection
        else (node.countVote sender response, [])) := by
  unfold handleRequestVoteResponse
  by_cases role : node.state.role = .candidate
  · rw [if_neg (not_not.mpr role)]
    by_cases higher : response.term > node.state.currentTerm
    · rw [if_pos higher]
      exact Or.inr (Or.inl ⟨role, higher, rfl⟩)
    · rw [if_neg higher]
      by_cases same : response.term = node.state.currentTerm
      · rw [if_neg (not_not.mpr same)]
        exact Or.inr (Or.inr ⟨role, same, rfl⟩)
      · rw [if_pos same]
        exact Or.inl rfl
  · rw [if_pos role]
    exact Or.inl rfl

/-! ## Replication -/

/-- A replication request is refused as stale, rejected by the consistency
check, or accepted. -/
theorem handleAppendEntries_cases {node after : RaftNode} {request : AppendEntriesRequest}
    {actions : List Action} (handled : node.handleAppendEntries request = .ok (after, actions)) :
    (request.term < node.state.currentTerm ∧ after = node ∧
      actions = [.sendAppendEntriesResponse request.leaderId
        ⟨node.state.currentTerm, false, none⟩]) ∨
    (node.state.currentTerm ≤ request.term ∧
      node.state.log.termAt request.prevLogIndex ≠ request.prevLogTerm ∧
      after = node.acceptLeader request ∧
      actions = [.sendAppendEntriesResponse request.leaderId
        ⟨request.term, false, some node.state.log.lastIndex⟩]) ∨
    (node.state.currentTerm ≤ request.term ∧
      node.state.log.termAt request.prevLogIndex = request.prevLogTerm ∧
      Exists fun inserted => (node.acceptLeader request).insertEntries request = .ok inserted ∧
        after = (inserted.followCommit request.leaderCommit).1 ∧
        actions = (inserted.followCommit request.leaderCommit).2 ++
          [.sendAppendEntriesResponse request.leaderId
            ⟨after.state.currentTerm, true, some after.state.log.lastIndex⟩]) := by
  unfold handleAppendEntries at handled
  by_cases stale : request.term < node.state.currentTerm
  · rw [if_pos stale] at handled
    cases handled
    exact Or.inl ⟨stale, rfl, rfl⟩
  · rw [if_neg stale] at handled
    have current : node.state.currentTerm ≤ request.term := Nat.le_of_not_lt stale
    have sameTerm : (node.acceptLeader request).state.currentTerm = request.term := by
      simpa using current
    have sameLog : (node.acceptLeader request).state.log = node.state.log := by simp
    simp only [sameTerm, sameLog] at handled
    by_cases matches_ : node.state.log.termAt request.prevLogIndex = request.prevLogTerm
    · rw [if_neg (not_not.mpr matches_)] at handled
      rcases Outcome.bind_eq_ok.mp handled with ⟨inserted, ok, returned⟩
      refine Or.inr (Or.inr ⟨current, matches_, inserted, ok, ?_⟩)
      cases returned
      exact ⟨rfl, rfl⟩
    · rw [if_pos matches_] at handled
      cases handled
      exact Or.inr (Or.inl ⟨current, matches_, rfl, rfl⟩)

/-- A rejected request of a term that is not older. -/
theorem handleAppendEntries_of_mismatch {node : RaftNode} {request : AppendEntriesRequest}
    (current : node.state.currentTerm ≤ request.term)
    (mismatch : node.state.log.termAt request.prevLogIndex ≠ request.prevLogTerm) :
    node.handleAppendEntries request = .ok (node.acceptLeader request,
      [.sendAppendEntriesResponse request.leaderId
        ⟨request.term, false, some node.state.log.lastIndex⟩]) := by
  have sameTerm : (node.acceptLeader request).state.currentTerm = request.term := by
    simpa using current
  have sameLog : (node.acceptLeader request).state.log = node.state.log := by simp
  unfold handleAppendEntries
  rw [if_neg (Nat.not_lt_of_le current)]
  simp only [sameTerm, sameLog]
  rw [if_pos mismatch]

/-- An accepted request of a term that is not older. -/
theorem handleAppendEntries_of_match {node inserted : RaftNode} {request : AppendEntriesRequest}
    (current : node.state.currentTerm ≤ request.term)
    (same : node.state.log.termAt request.prevLogIndex = request.prevLogTerm)
    (ok : (node.acceptLeader request).insertEntries request = .ok inserted) :
    node.handleAppendEntries request = .ok ((inserted.followCommit request.leaderCommit).1,
      (inserted.followCommit request.leaderCommit).2 ++
        [.sendAppendEntriesResponse request.leaderId
          ⟨(inserted.followCommit request.leaderCommit).1.state.currentTerm, true,
            some (inserted.followCommit request.leaderCommit).1.state.log.lastIndex⟩]) := by
  have sameLog : (node.acceptLeader request).state.log = node.state.log := by simp
  unfold handleAppendEntries
  rw [if_neg (Nat.not_lt_of_le current)]
  simp only [sameLog]
  rw [if_neg (not_not.mpr same), ok]
  rfl

/-- A replication response is ignored, makes the leader step down, or moves the
bookkeeping of its sender. -/
theorem handleAppendEntriesResponse_cases {node after : RaftNode} {sender : Nat}
    {response : AppendEntriesResponse} {actions : List Action}
    (handled : node.handleAppendEntriesResponse sender response = .ok (after, actions)) :
    (node.state.role ≠ .leader ∧ after = node ∧ actions = []) ∨
    (node.state.role = .leader ∧ node.state.currentTerm < response.term ∧
      after = node.stepDown response.term ∧ actions = []) ∨
    (node.state.role = .leader ∧ response.term ≤ node.state.currentTerm ∧
      response.success = true ∧ Exists fun recorded =>
        node.recordMatch sender response.matchIndex = .ok recorded ∧
        (after, actions) = recorded.maybeAdvanceCommitIndex) ∨
    (node.state.role = .leader ∧ response.term ≤ node.state.currentTerm ∧
      response.success = false ∧
      node.recordRejection sender response.matchIndex = .ok after ∧ actions = []) := by
  unfold handleAppendEntriesResponse at handled
  by_cases role : node.state.role = .leader
  · rw [if_neg (not_not.mpr role)] at handled
    by_cases higher : response.term > node.state.currentTerm
    · rw [if_pos higher] at handled
      cases handled
      exact Or.inr (Or.inl ⟨role, higher, rfl, rfl⟩)
    · rw [if_neg higher] at handled
      have bound : response.term ≤ node.state.currentTerm := Nat.le_of_not_lt higher
      cases accepted : response.success with
      | true =>
          rw [accepted, if_pos rfl] at handled
          rcases Outcome.bind_eq_ok.mp handled with ⟨recorded, ok, returned⟩
          exact Or.inr (Or.inr (Or.inl
            ⟨role, bound, rfl, recorded, ok, (Except.ok.inj returned).symm⟩))
      | false =>
          rw [accepted, if_neg (by simp)] at handled
          rcases Outcome.bind_eq_ok.mp handled with ⟨recorded, ok, returned⟩
          cases returned
          exact Or.inr (Or.inr (Or.inr ⟨role, bound, rfl, ok, rfl⟩))
  · rw [if_pos role] at handled
    cases handled
    exact Or.inl ⟨role, rfl, rfl⟩

/-- The leader's node right after it has appended and saved a proposed entry. -/
def withEntry (node : RaftNode) (command : LogCommand) : RaftNode :=
  let log : RaftLog := ⟨node.state.log.entries ++ [⟨node.state.currentTerm, command⟩]⟩
  ({ node with state := { node.state with log := log } }).persist

/-- A proposal is refused or appended, replicated and possibly committed. -/
theorem propose_cases {node after : RaftNode} {command : LogCommand}
    {actions : Option (List Action)} (proposed : node.propose command = .ok (after, actions)) :
    (node.state.role ≠ .leader ∧ after = node ∧ actions = none) ∨
    (node.state.role = .leader ∧ node.state.log.entries.length + 1 ≤ vecCapacity ∧
      after = (node.withEntry command).maybeAdvanceCommitIndex.1 ∧
      actions = some ((node.withEntry command).replicateToAllPeers ++
        (node.withEntry command).maybeAdvanceCommitIndex.2)) := by
  unfold propose at proposed
  by_cases role : node.state.role = .leader
  · rw [if_neg (not_not.mpr role)] at proposed
    rcases Outcome.bind_eq_ok.mp proposed with ⟨log, appended, returned⟩
    rcases RaftLog.appendEntries_eq_ok.mp appended with ⟨fits, rfl⟩
    change Except.ok ((node.withEntry command).maybeAdvanceCommitIndex.1,
      some ((node.withEntry command).replicateToAllPeers ++
        (node.withEntry command).maybeAdvanceCommitIndex.2)) = Except.ok (after, actions) at returned
    simp only [Except.ok.injEq, Prod.mk.injEq] at returned
    exact Or.inr ⟨role, fits, returned.1.symm, returned.2.symm⟩
  · rw [if_pos role] at proposed
    cases proposed
    exact Or.inl ⟨role, rfl, rfl⟩

/-! ## The leader's tables -/

/-- Each pair of the updated table was there before or is the updated one. -/
theorem mem_updateFirst {key : Nat} {update : Nat -> Outcome Nat} {pairs result : List (Nat × Nat)}
    (updated : updateFirst key update pairs = .ok result) {pair : Nat × Nat}
    (member : pair ∈ result) :
    pair ∈ pairs ∨ (pair.1 = key ∧ Exists fun value => (key, value) ∈ pairs ∧
      update value = .ok pair.2) := by
  induction pairs generalizing result with
  | nil =>
      cases updated
      exact Or.inl member
  | cons head rest inductionHypothesis =>
      rcases head with ⟨id, value⟩
      unfold updateFirst at updated
      by_cases found : id = key
      · rw [if_pos found] at updated
        rcases Outcome.map_eq_ok.mp updated with ⟨newValue, computed, rfl⟩
        rcases List.mem_cons.mp member with rfl | later
        · subst found
          exact Or.inr ⟨rfl, value, List.mem_cons_self, computed⟩
        · exact Or.inl (List.mem_cons_of_mem _ later)
      · rw [if_neg found] at updated
        rcases Outcome.map_eq_ok.mp updated with ⟨newRest, computed, rfl⟩
        rcases List.mem_cons.mp member with rfl | later
        · exact Or.inl List.mem_cons_self
        · rcases inductionHypothesis computed later with before | ⟨same, old, present, result⟩
          · exact Or.inl (List.mem_cons_of_mem _ before)
          · exact Or.inr ⟨same, old, List.mem_cons_of_mem _ present, result⟩

/-- The keys of the table stay where they are. -/
theorem updateFirst_keys {key : Nat} {update : Nat -> Outcome Nat}
    {pairs result : List (Nat × Nat)} (updated : updateFirst key update pairs = .ok result) :
    result.map Prod.fst = pairs.map Prod.fst := by
  induction pairs generalizing result with
  | nil =>
      cases updated
      rfl
  | cons head rest inductionHypothesis =>
      rcases head with ⟨id, value⟩
      unfold updateFirst at updated
      by_cases found : id = key
      · rw [if_pos found] at updated
        rcases Outcome.map_eq_ok.mp updated with ⟨newValue, _, rfl⟩
        rfl
      · rw [if_neg found] at updated
        rcases Outcome.map_eq_ok.mp updated with ⟨newRest, computed, rfl⟩
        rw [List.map_cons, List.map_cons, inductionHypothesis computed]

/-- An update that panics on all values alike panics only if the key is found. -/
theorem updateFirst_returns {key : Nat} {update : Nat -> Outcome Nat} {condition : Prop}
    (alike : forall value, (Exists fun result => update value = .ok result) <-> condition)
    (pairs : List (Nat × Nat)) :
    (Exists fun result => updateFirst key update pairs = .ok result) <->
      (key ∈ pairs.map Prod.fst -> condition) := by
  induction pairs with
  | nil => exact ⟨fun _ found => (List.not_mem_nil found).elim, fun _ => ⟨[], rfl⟩⟩
  | cons pair rest inductionHypothesis =>
      rcases pair with ⟨id, value⟩
      unfold updateFirst
      by_cases found : id = key
      · rw [if_pos found, ← alike value]
        simp only [Outcome.returns_map, List.map_cons, found, List.mem_cons, true_or, forall_const]
      · have absent : key ≠ id := fun same => found same.symm
        rw [if_neg found]
        simp only [Outcome.returns_map, List.map_cons, List.mem_cons, absent, false_or,
          inductionHypothesis]

/-- An update that never panics. -/
theorem exists_updateFirst (key : Nat) {update : Nat -> Outcome Nat}
    (total : forall value, Exists fun next => update value = .ok next)
    (pairs : List (Nat × Nat)) : Exists fun result => updateFirst key update pairs = .ok result := by
  have alike : forall value, (Exists fun next => update value = .ok next) <-> True :=
    fun value => iff_true_intro (total value)
  exact (updateFirst_returns alike pairs).mpr fun _ => trivial

/-- Recording a match only moves the two tables. -/
theorem recordMatch_eq_ok {node result : RaftNode} {sender : Nat} {matchIdx : Option Nat}
    (recorded : node.recordMatch sender matchIdx = .ok result) :
    Exists fun matchIndex => Exists fun nextIndex =>
      result = { node with state := { node.state with
        matchIndex := matchIndex, nextIndex := nextIndex } } ∧
      ((matchIdx = none ∧ matchIndex = node.state.matchIndex ∧ nextIndex = node.state.nextIndex) ∨
        Exists fun reported => matchIdx = some reported ∧
          updateFirst sender (fun _ => .ok reported) node.state.matchIndex = .ok matchIndex ∧
          updateFirst sender (fun _ => checkedAdd reported 1) node.state.nextIndex =
            .ok nextIndex) := by
  cases matchIdx with
  | none =>
      cases recorded
      exact ⟨_, _, rfl, Or.inl ⟨rfl, rfl, rfl⟩⟩
  | some reported =>
      rcases Outcome.bind_eq_ok.mp recorded with ⟨matchIndex, first, rest⟩
      rcases Outcome.bind_eq_ok.mp rest with ⟨nextIndex, second, returned⟩
      cases returned
      exact ⟨matchIndex, nextIndex, rfl, Or.inr ⟨reported, rfl, first, second⟩⟩

/-- Recording a rejection only moves the table of probes. -/
theorem recordRejection_eq_ok {node result : RaftNode} {sender : Nat} {hint : Option Nat}
    (recorded : node.recordRejection sender hint = .ok result) :
    Exists fun nextIndex =>
      result = { node with state := { node.state with nextIndex := nextIndex } } ∧
      updateFirst sender (backUp hint) node.state.nextIndex = .ok nextIndex := by
  rcases Outcome.bind_eq_ok.mp recorded with ⟨nextIndex, updated, returned⟩
  cases returned
  exact ⟨nextIndex, rfl, updated⟩

/-- An update that keeps indices positive keeps a table of them so. -/
theorem updateFirst_pos {key : Nat} {update : Nat -> Outcome Nat} {pairs result : List (Nat × Nat)}
    (updated : updateFirst key update pairs = .ok result)
    (positive : forall value next, 0 < value -> update value = .ok next -> 0 < next)
    (before : forall pair, pair ∈ pairs -> 0 < pair.2) : forall pair, pair ∈ result -> 0 < pair.2 := by
  intro pair member
  rcases mem_updateFirst updated member with kept | ⟨_, value, listed, computed⟩
  · exact before pair kept
  · exact positive value pair.2 (before _ listed) computed

theorem backUp_pos {hint : Option Nat} {value next : Nat} (positive : 0 < value)
    (moved : backUp hint value = .ok next) : 0 < next := by
  cases hint with
  | none =>
      cases moved
      split <;> omega
  | some reported =>
      rcases checkedAdd_eq_ok.mp moved with ⟨_, rfl⟩
      exact Nat.succ_pos _

/-- The next index of a follower stays positive when it accepts. -/
theorem recordMatch_pos {node result : RaftNode} {sender : Nat} {matchIdx : Option Nat}
    (recorded : node.recordMatch sender matchIdx = .ok result)
    (before : forall pair, pair ∈ node.state.nextIndex -> 0 < pair.2) :
    forall pair, pair ∈ result.state.nextIndex -> 0 < pair.2 := by
  rcases recordMatch_eq_ok recorded with ⟨_, _, rfl, ⟨_, _, rfl⟩ | ⟨reported, _, _, updated⟩⟩
  · exact before
  · apply updateFirst_pos updated ?_ before
    intro value next _ computed
    rcases checkedAdd_eq_ok.mp computed with ⟨_, rfl⟩
    exact Nat.succ_pos _

/-- The next index of a follower stays positive when it rejects. -/
theorem recordRejection_pos {node result : RaftNode} {sender : Nat} {hint : Option Nat}
    (recorded : node.recordRejection sender hint = .ok result)
    (before : forall pair, pair ∈ node.state.nextIndex -> 0 < pair.2) :
    forall pair, pair ∈ result.state.nextIndex -> 0 < pair.2 := by
  rcases recordRejection_eq_ok recorded with ⟨_, rfl, updated⟩
  exact updateFirst_pos updated (fun _ _ positive moved => backUp_pos positive moved) before

/-- The requests a leader sends are cut from its log at the probed index. -/
theorem mem_replicateToAllPeers {node : RaftNode} {action : Action}
    (member : action ∈ node.replicateToAllPeers) :
    Exists fun peerId => Exists fun next => peerId ∈ node.state.otherPeers ∧
      (peerId, next) ∈ node.state.nextIndex ∧
      action = .sendAppendEntries peerId {
        term := node.state.currentTerm
        leaderId := node.state.id
        prevLogIndex := next - 1
        prevLogTerm := node.state.log.termAt (next - 1)
        entries := node.state.log.entriesFrom next
        leaderCommit := node.state.commitIndex } := by
  rcases List.mem_filterMap.mp member with ⟨peerId, listed, sent⟩
  rcases Option.map_eq_some_iff.mp sent with ⟨pair, found, rfl⟩
  have key : pair.1 = peerId := by simpa using List.find?_some found
  refine ⟨peerId, pair.2, listed, ?_, ?_⟩
  · rw [← key]
    exact List.mem_of_find?_eq_some found
  · have same : (if pair.2 > 0 then pair.2 - 1 else 0) = pair.2 - 1 := by
      split <;> omega
    simp only [same]

end RaftNode
end Raft
end RaftStore
