import RaftStore.Cluster.Durability
import RaftStore.Collections.Overwrite
import RaftStore.Service.Projection

namespace RaftStore
namespace Service

open Raft Storage Systems Cluster Consensus Collections

/-!
# Storage after restarts

At a restart the storage engine comes back from its file with everything it ever
took, while the Raft node starts over with nothing applied.  The entries that are
applied a second time are harmless when they reach at least as far as the storage
had got.  They are not when the node is told of a lower commit index, or when it
crashes in the middle of them: then old values are put back over newer ones, and
the storage shows a state that no part of the log leads to.

The file proves that these two, and the wrong commitments of imprudent steps, are
all that can go wrong.
-/

/-! ## The contents of a log -/

/-- What a command writes: the key and what is found there afterwards. -/
def writeOf : LogCommand -> Option (String × Option String)
  | .put key value => some (key, some value)
  | .delete key => some (key, none)
  | .noop => none

/-- What the entries write, in order. -/
def writesOf (entries : List LogEntry) : List (String × Option String) :=
  entries.filterMap (fun entry => writeOf entry.command)

/-- The map that the commands of the entries, applied in order, make of the empty
map. -/
def contents (entries : List LogEntry) : String -> Option String :=
  overwrite (fun _ => none) (writesOf entries)

theorem writesOf_append (front back : List LogEntry) :
    writesOf (front ++ back) = writesOf front ++ writesOf back :=
  List.filterMap_append

/-- A longer part of a list, cut where a shorter one ends. -/
theorem take_append_drop_take {α : Type} (list : List α) {low high : Nat} (ordered : low ≤ high) :
    list.take low ++ (list.take high).drop low = list.take high := by
  have parts := List.take_append_drop low (list.take high)
  rw [List.take_take, Nat.min_eq_left ordered] at parts
  exact parts

/-- Applying the entries above `low` once more, up to `high`, to the contents of a
part of the log in between gives the contents up to `high`. -/
theorem overwrite_contents {log : List LogEntry} {low count high : Nat} (above : low ≤ count)
    (below : count ≤ high) :
    overwrite (contents (log.take count)) (writesOf ((log.take high).drop low)) =
      contents (log.take high) := by
  have back : (log.take high).drop low = (log.take count).drop low ++ (log.take high).drop count := by
    have parts := List.take_append_drop (count - low) ((log.take high).drop low)
    rw [List.drop_drop, ← List.drop_take, List.take_take, Nat.min_eq_left below,
      Nat.add_sub_cancel' above] at parts
    exact parts.symm
  unfold contents
  rw [← take_append_drop_take log above, back, writesOf_append, writesOf_append, overwrite_resume,
    ← writesOf_append, ← back, ← writesOf_append,
    take_append_drop_take log (Nat.le_trans above below)]

/-! ## Clean commands -/

/-- The texts of a command do not disturb the file they are written to. -/
def CleanCommand : LogCommand -> Prop
  | .put key value => CleanText key ∧ CleanText value
  | .delete key => CleanText key
  | .noop => True

/-- The command in an entry is clean. -/
def CleanEntry (entry : LogEntry) : Prop := CleanCommand entry.command

/-- Without failing appends the engine takes over what a command writes. -/
theorem applyCommand_reliable {storage : StorageEngine} (reliable : storage.Reliable)
    (command : LogCommand) :
    (ClusterNode.applyCommand storage command).Reliable ∧
      (ClusterNode.applyCommand storage command).get =
        overwrite storage.get (writeOf command).toList := by
  cases command with
  | put key value => exact reliable.put key value
  | delete key => exact reliable.delete key
  | noop => exact ⟨reliable, rfl⟩

theorem applyCommands_reliable {storage : StorageEngine} (reliable : storage.Reliable)
    (commands : List LogCommand) :
    (commands.foldl ClusterNode.applyCommand storage).Reliable ∧
      (commands.foldl ClusterNode.applyCommand storage).get =
        overwrite storage.get (commands.filterMap writeOf) := by
  induction commands generalizing storage with
  | nil => exact ⟨reliable, rfl⟩
  | cons command rest inductionHypothesis =>
      rcases applyCommand_reliable reliable command with ⟨once, shown⟩
      rcases inductionHypothesis once with ⟨kept, all⟩
      refine ⟨kept, ?_⟩
      rw [List.foldl_cons, all, shown, ← overwrite_append]
      congr 1
      rw [List.filterMap_cons]
      cases writeOf command <;> rfl

/-- A storage engine whose file and table agree. -/
def Intact (storage : StorageEngine) : Prop := Exists fun entries => storage.Holds entries

theorem Intact.reliable {storage : StorageEngine} (intact : Intact storage) : storage.Reliable := by
  rcases intact with ⟨entries, holds⟩
  intro fault listed
  rw [holds.wal.faultless] at listed
  exact (List.not_mem_nil listed).elim

theorem Intact.applyCommand {storage : StorageEngine} (intact : Intact storage)
    {command : LogCommand} (clean : CleanCommand command) :
    Intact (ClusterNode.applyCommand storage command) := by
  rcases intact with ⟨entries, holds⟩
  cases command with
  | put key value =>
      rcases holds.put clean.1 clean.2 with ⟨after, stored, held⟩
      simp only [ClusterNode.applyCommand, stored]
      exact ⟨_, held⟩
  | delete key =>
      rcases holds.delete clean with ⟨after, stored, held⟩
      simp only [ClusterNode.applyCommand, stored]
      exact ⟨_, held⟩
  | noop => exact ⟨entries, holds⟩

theorem Intact.applyCommands {storage : StorageEngine} (intact : Intact storage)
    {commands : List LogCommand} (clean : forall command, command ∈ commands -> CleanCommand command) :
    Intact (commands.foldl ClusterNode.applyCommand storage) := by
  induction commands generalizing storage with
  | nil => exact intact
  | cons command rest inductionHypothesis =>
      have once := intact.applyCommand (clean command List.mem_cons_self)
      exact inductionHypothesis once (fun other listed => clean other (List.mem_cons_of_mem _ listed))

/-! ## Conditions -/

/-- The texts of a client's write are clean. -/
def CleanWrite : Command -> Prop
  | .set key value => CleanText key ∧ CleanText value
  | .del key => CleanText key
  | _ => True

instance (command : Command) : Decidable (CleanWrite command) :=
  match command with
  | .set _ _ => inferInstanceAs (Decidable (_ ∧ _))
  | .del key => inferInstanceAs (Decidable (CleanText key))
  | .get _ => inferInstanceAs (Decidable True)
  | .ping => inferInstanceAs (Decidable True)
  | .unknown _ => inferInstanceAs (Decidable True)

/-- What a client asks for at the event is clean. -/
def CleanRequest (event : Event) : Prop :=
  forall command, command ∈ event.request -> CleanWrite command

instance (event : Event) : Decidable (CleanRequest event) :=
  inferInstanceAs (Decidable (forall _, _ -> _))

/-- A delivery that gives no leader a wrong belief about a follower, also when a
crash cuts its section off. -/
def Careful (config : Configuration) : Event -> Prop
  | .deliver packet => Prudent ⟨config.raft, config.network⟩ (.deliver packet)
  | .crash event _ => Careful config event
  | _ => True

instance decidableCareful (config : Configuration) (event : Event) :
    Decidable (Careful config event) :=
  match event with
  | .deliver packet =>
      inferInstanceAs (Decidable (Prudent ⟨config.raft, config.network⟩ (.deliver packet)))
  | .crash event _ => decidableCareful config event
  | .tick _ => inferInstanceAs (Decidable True)
  | .client _ _ => inferInstanceAs (Decidable True)
  | .poll _ _ => inferInstanceAs (Decidable True)
  | .restart _ => inferInstanceAs (Decidable True)

/-- How far a server had applied its log before a step, or, if the step is a crash
in a section of that server, how far it got in the section. -/
def appliedAt (id : Nat) (transition : Transition) : Nat :=
  match transition.event with
  | .crash event last =>
      if event.actor = id then max (transition.source.raft id).state.lastApplied last
      else (transition.source.raft id).state.lastApplied
  | _ => (transition.source.raft id).state.lastApplied

/-- The highest index that a server has applied in the steps of a history, over all
its lifetimes. -/
def everApplied (id : Nat) : List Transition -> Nat
  | [] => 0
  | transition :: older => max (appliedAt id transition) (everApplied id older)

/-- A step at which a server applies entries does not end below what it has ever
applied: a request that makes the node commit announces at least that much, and a
crash in a section falls before the first entry that the section applies or not
before that much has been applied. -/
def CatchesUpAt (older : List Transition) (config : Configuration) : Event -> Prop
  | .deliver ⟨id, .appendEntries _ request⟩ =>
      Accepts (config.raft id) request ->
      (config.raft id).state.commitIndex < request.leaderCommit ->
      everApplied id older ≤ request.leaderCommit
  | .crash event last =>
      last ≤ (config.raft event.actor).state.lastApplied ∨ everApplied event.actor older ≤ last
  | _ => True

instance (older : List Transition) (config : Configuration) (event : Event) :
    Decidable (CatchesUpAt older config event) :=
  match event with
  | .deliver ⟨_, .appendEntries _ _⟩ => inferInstanceAs (Decidable (_ -> _ -> _))
  | .deliver ⟨_, .appendEntriesResponse _ _⟩ => inferInstanceAs (Decidable True)
  | .deliver ⟨_, .requestVote _ _⟩ => inferInstanceAs (Decidable True)
  | .deliver ⟨_, .requestVoteResponse _ _⟩ => inferInstanceAs (Decidable True)
  | .tick _ => inferInstanceAs (Decidable True)
  | .client _ _ => inferInstanceAs (Decidable True)
  | .poll _ _ => inferInstanceAs (Decidable True)
  | .restart _ => inferInstanceAs (Decidable True)
  | .crash _ _ => inferInstanceAs (Decidable (_ ∨ _))

/-- Every step of the history catches up. -/
def CatchesUp : List Transition -> Prop
  | [] => True
  | transition :: older => CatchesUpAt older transition.source transition.event ∧ CatchesUp older

instance decidableCatchesUp (history : List Transition) : Decidable (CatchesUp history) :=
  match history with
  | [] => inferInstanceAs (Decidable True)
  | _ :: older =>
      have := decidableCatchesUp older
      inferInstanceAs (Decidable (_ ∧ CatchesUp older))

/-! ## Schedules -/

/-- Three writes are committed at node 1 and applied at node 2, which then
restarts. -/
def threeWrites : List Event :=
  election ++
  [.client 1 (.set "k" "a"),
   .deliver ⟨2, .appendEntries 1 ⟨1, 1, 0, 0, [⟨1, .put "k" "a"⟩], 0⟩⟩,
   .deliver ⟨1, .appendEntriesResponse 2 ⟨1, true, some 1⟩⟩,
   .poll 1 false,
   .client 1 (.set "k" "b"),
   .deliver ⟨2, .appendEntries 1 ⟨1, 1, 1, 1, [⟨1, .put "k" "b"⟩], 1⟩⟩,
   .deliver ⟨1, .appendEntriesResponse 2 ⟨1, true, some 2⟩⟩,
   .poll 1 false,
   .client 1 (.set "j" "c"),
   .deliver ⟨2, .appendEntries 1 ⟨1, 1, 2, 1, [⟨1, .put "j" "c"⟩], 2⟩⟩,
   .deliver ⟨1, .appendEntriesResponse 2 ⟨1, true, some 3⟩⟩] ++
  ticks 1 5 ++
  [.deliver ⟨2, .appendEntries 1 ⟨1, 1, 3, 1, [], 3⟩⟩,
   .restart 2]

/-- The heartbeat that tells node 2 again of all three writes. -/
def reminder : Event := .deliver ⟨2, .appendEntries 1 ⟨1, 1, 3, 1, [], 3⟩⟩

/-- Node 2 is told again of all three writes.  It crashes before it applies the
first one, then after the last one, before it gets to the end. -/
def resumed : List Event := threeWrites ++ [.crash reminder 0, .crash reminder 3, reminder]

/-- Node 2 gets a late copy of an old request, which tells it of one write only. -/
def regressed : List Event :=
  threeWrites ++ [.deliver ⟨2, .appendEntries 1 ⟨1, 1, 1, 1, [⟨1, .put "k" "b"⟩], 1⟩⟩]

section Results

variable {peers : List Nat} {history : List Transition} {config next : Configuration}
  {ledger later final : Ledger Nat LogEntry} {id : Nat} {event : Event}
  {answer : Option Response}

/-! ## What has ever been applied -/

/-- The highest index that a server has ever applied, now or before. -/
def reach (id : Nat) (history : List Transition) (config : Configuration) : Nat :=
  max (config.raft id).state.lastApplied (everApplied id history)

theorem lastApplied_le_appliedAt (id : Nat) (transition : Transition) :
    (transition.source.raft id).state.lastApplied ≤ appliedAt id transition := by
  unfold appliedAt
  split
  · split
    · exact Nat.le_max_left _ _
    · exact Nat.le_refl _
  · exact Nat.le_refl _

/-- Only a crash in a section of the server itself counts for more. -/
theorem appliedAt_eq {transition : Transition}
    (whole : forall begun bound, transition.event = .crash begun bound -> begun.actor ≠ id) :
    appliedAt id transition = (transition.source.raft id).state.lastApplied := by
  unfold appliedAt
  split
  · next begun bound crashed => exact if_neg (whole begun bound crashed)
  · rfl

theorem reach_le_next (id : Nat) (transition : Transition) (history : List Transition) :
    reach id history transition.source ≤ reach id (transition :: history) transition.target := by
  have here := lastApplied_le_appliedAt id transition
  simp only [reach, everApplied]
  omega

/-- A step at which a server applies nothing new. -/
theorem reach_next_eq {transition : Transition}
    (during : appliedAt id transition ≤ reach id history transition.source)
    (afterwards : (transition.target.raft id).state.lastApplied ≤
      reach id history transition.source) :
    reach id (transition :: history) transition.target = reach id history transition.source := by
  have onward := reach_le_next id transition history
  simp only [reach, everApplied] at *
  omega

/-! ## The invariant -/

/-- A server shows the contents of the first entries of its log, as many as it
has ever applied.  They are durable.  Its Raft node has not committed more, and a
leader that has committed less has entries of its own term to commit first. -/
structure Reflects (peers : List Nat) (history : List Transition) (config : Configuration)
    (ledger : Ledger Nat LogEntry) (id : Nat) : Prop where
  bound : reach id history config ≤ (ledger.log id).length
  durable : Durable peers.toFinset LogEntry.term ledger (ledger.term id)
    ((ledger.log id).take (reach id history config))
  leads : (config.raft id).state.role = .leader ->
    (config.raft id).state.commitIndex = reach id history config ∨
    forall entry, entry ∈ (ledger.log id).take (reach id history config) ->
      entry.term < ledger.term id
  intact : Intact (config.storage id)
  shows : (config.storage id).get = contents ((ledger.log id).take (reach id history config))

/-- A step after which the storage shows what it showed before. -/
theorem Reflects.keep {actor : Nat} (reflects : Reflects peers history config ledger id)
    (sound : SoundFor peers ledger) (steps : StepsOf peers actor ledger later)
    (same : reach id (⟨config, event, answer, next⟩ :: history) next = reach id history config)
    (leads : (next.raft id).state.role = .leader ->
      (next.raft id).state.commitIndex = reach id history config ∨
      forall entry, entry ∈ (ledger.log id).take (reach id history config) ->
        entry.term < later.term id)
    (intact : Intact (next.storage id)) (shown : (next.storage id).get = (config.storage id).get) :
    Reflects peers (⟨config, event, answer, next⟩ :: history) next later id := by
  have kept := steps.keeps_durable sound reflects.durable (List.take_prefix _ _)
  have front := take_eq_of_isPrefix reflects.bound kept
  have moves := steps.moves sound
  refine ⟨?_, ?_, ?_, intact, ?_⟩
  · have length := kept.length_le
    rw [List.length_take_of_le reflects.bound] at length
    rw [same]
    exact length
  · rw [same, front]
    exact reflects.durable.mono moves.toExtends (moves.term_le id)
  · rw [same, front]
    exact leads
  · rw [same, front, shown]
    exact reflects.shows

/-- A server that does not act, or whose step touches neither its Raft node nor
its storage. -/
theorem Reflects.frame {actor : Nat} (reflects : Reflects peers history config ledger id)
    (sound : SoundFor peers ledger) (steps : StepsOf peers actor ledger later)
    (elsewhere : forall begun bound, event = .crash begun bound -> begun.actor ≠ id)
    (sameTerm : later.term id = ledger.term id) (sameRaft : next.raft id = config.raft id)
    (sameStorage : next.storage id = config.storage id) :
    Reflects peers (⟨config, event, answer, next⟩ :: history) next later id := by
  have before : (config.raft id).state.lastApplied ≤ reach id history config := Nat.le_max_left _ _
  refine reflects.keep sound steps (reach_next_eq ?_ ?_) ?_ ?_ ?_
  · rw [appliedAt_eq elsewhere]
    exact before
  · rw [sameRaft]
    exact before
  · rw [sameRaft, sameTerm]
    exact reflects.leads
  · rw [sameStorage]
    exact reflects.intact
  · rw [sameStorage]

/-- The server comes up on the files as they were. -/
theorem Reflects.reopen (reflects : Reflects peers history config ledger id)
    (sound : SoundFor peers ledger) (steps : StepsOf peers id ledger later)
    (awakened : RaftNode.Awakened id peers (next.raft id))
    (during : appliedAt id ⟨config, event, answer, next⟩ ≤ reach id history config)
    (opened : StorageEngine.new (config.storage id).wal.file [] = .ok (next.storage id)) :
    Reflects peers (⟨config, event, answer, next⟩ :: history) next later id := by
  rcases reflects.intact with ⟨entries, holds⟩
  rcases holds.reopen with ⟨reopened, same, held, shown⟩
  rw [opened] at same
  cases same
  refine reflects.keep sound steps (reach_next_eq during ?_) ?_ ⟨entries, held⟩ shown
  · rw [awakened.applied]
    exact Nat.zero_le _
  · rw [awakened.role]
    rintro ⟨⟩

/-- A leader that did not commit at this step: it led before, or it holds no entry
of its term yet. -/
theorem Reflects.leads_silently (reflects : Reflects peers history config ledger id)
    (sound : SoundFor peers ledger) (represents : Represents peers ledger id (config.raft id))
    {after : RaftNode} (represented : Represents peers later id after)
    (ascends : RaftNode.Ascends (config.raft id) after)
    (sameCommit : after.state.commitIndex = (config.raft id).state.commitIndex)
    (leads : after.state.role = .leader) :
    after.state.commitIndex = reach id history config ∨
    forall entry, entry ∈ (ledger.log id).take (reach id history config) ->
      entry.term < later.term id := by
  rw [sameCommit, ← represented.term_eq]
  rcases ascends leads with ⟨role, term⟩ | ⟨role, term⟩ | term
  · rw [term, represents.term_eq]
    exact reflects.leads role
  · rw [term, represents.term_eq]
    right
    intro entry listed
    exact sound.stand_old (represents.stands role).1 entry (List.mem_of_mem_take listed)
  · rw [term, represents.term_eq]
    right
    intro entry listed
    exact Nat.lt_succ_of_le (sound.log_bound id entry (List.mem_of_mem_take listed))

/-- A leader commits beyond everything the server has ever applied. -/
theorem Reflects.le_of_leaderApplies (reflects : Reflects peers history config ledger id)
    (represents : Represents peers ledger id (config.raft id)) {after : RaftNode}
    (represented : Represents peers later id after)
    (kept : (ledger.log id).take (reach id history config) <+: later.log id) {actions : List Action}
    {high : Nat} (applies : RaftNode.LeaderApplies (config.raft id) after actions high) :
    reach id history config ≤ high := by
  rcases reflects.leads applies.leads with same | old
  · rw [← same]
    exact Nat.le_of_lt applies.above
  · by_contra beyond
    have positive := applies.above
    obtain ⟨position, rfl⟩ : Exists fun position => high = position + 1 := ⟨high - 1, by omega⟩
    have below : position < reach id history config := by omega
    have inside : position < (ledger.log id).length := Nat.lt_of_lt_of_le below reflects.bound
    have front : ((ledger.log id).take (reach id history config))[position]? =
        some (ledger.log id)[position] := by
      rw [List.getElem?_take_of_lt below, List.getElem?_eq_getElem inside]
    have current := applies.current
    rw [RaftLog.termAt_succ, represented.log_eq, RaftLog.body_mk, getElem?_of_isPrefix kept front,
      represents.term_eq] at current
    have earlier := old _ (List.mem_of_getElem? front)
    exact Nat.lt_irrefl _ (Nat.lt_of_lt_of_eq earlier current.symm)

/-- A follower is told of no less than the server has ever applied. -/
theorem reach_le_of_followerApplies (settled : Settled peers ledger id (config.raft id))
    {sender : Nat} {request : AppendEntriesRequest}
    (catches : CatchesUpAt history config (.deliver ⟨id, .appendEntries sender request⟩))
    (accepts : Accepts (config.raft id) request)
    (above : (config.raft id).state.commitIndex < request.leaderCommit) :
    reach id history config ≤ request.leaderCommit := by
  refine Nat.max_le.mpr ⟨?_, catches accepts above⟩
  rw [settled.applied]
  exact Nat.le_of_lt above

/-- What a Raft node applies comes from its log. -/
theorem clean_commandsOf_applications {node : RaftNode} (clean : RaftNode.LogsOnly CleanEntry node)
    {low high : Nat} {command : LogCommand}
    (listed : command ∈ commandsOf (node.applications low high)) : CleanCommand command := by
  rcases List.mem_filterMap.mp listed with ⟨action, applied, given⟩
  rcases RaftNode.mem_applications.mp applied with ⟨index, _, _, entry, present, _, rfl⟩
  cases given
  exact clean entry (List.mem_of_getElem? present)

/-! ## Calls on one server -/

/-- What is known around a call on the Raft node of a server. -/
structure Calling (peers : List Nat) (history : List Transition) (config : Configuration)
    (ledger later : Ledger Nat LogEntry) (id : Nat) (node : RaftNode) : Prop where
  reflects : Reflects peers history config ledger id
  sound : SoundFor peers ledger
  steps : StepsOf peers id ledger later
  represents : Represents peers ledger id (config.raft id)
  represented : Represents peers later id node
  settled : Settled peers ledger id (config.raft id)
  settledLater : Settled peers later id node
  clean : RaftNode.LogsOnly CleanEntry node

namespace Calling

variable {node : RaftNode} {actions : List Action}

theorem kept (calling : Calling peers history config ledger later id node) :
    (ledger.log id).take (reach id history config) <+: later.log id :=
  calling.steps.keeps_durable calling.sound calling.reflects.durable (List.take_prefix _ _)

theorem le_lastIndex (calling : Calling peers history config ledger later id node) :
    reach id history config ≤ node.state.log.lastIndex := by
  have length := calling.kept.length_le
  rw [List.length_take_of_le calling.reflects.bound] at length
  rw [RaftLog.lastIndex_eq_length_body, calling.represented.log_eq, RaftLog.body_mk]
  exact length

/-- Storage after entries were applied, up to an index no lower than what was ever
applied. -/
theorem shows_applied (calling : Calling peers history config ledger later id node) {high : Nat}
    (notBefore : reach id history config ≤ high) (bound : high ≤ (later.log id).length)
    {storage : StorageEngine}
    (stored : storage = (commandsOf (node.applications (config.raft id).state.lastApplied high)).foldl
      ClusterNode.applyCommand (config.storage id)) :
    Intact storage ∧ storage.get = contents ((later.log id).take high) := by
  have body : node.state.log.body = later.log id := by
    rw [calling.represented.log_eq, RaftLog.body_mk]
  have inside : high ≤ node.state.log.body.length := by
    rw [body]
    exact bound
  rw [stored]
  refine ⟨calling.reflects.intact.applyCommands
    fun command listed => clean_commandsOf_applications calling.clean listed, ?_⟩
  rw [(applyCommands_reliable calling.reflects.intact.reliable _).2,
    RaftNode.filterMap_applications writeOf rfl _ inside, body, calling.reflects.shows,
    ← take_eq_of_isPrefix calling.reflects.bound calling.kept]
  exact overwrite_contents (Nat.le_max_left _ _) notBefore

/-- Nothing is applied. -/
theorem reflects_silently (calling : Calling peers history config ledger later id (next.raft id))
    (whole : forall begun bound, event = .crash begun bound -> begun.actor ≠ id)
    (silent : RaftNode.Silent (config.raft id) (next.raft id) actions)
    (ascends : RaftNode.Ascends (config.raft id) (next.raft id))
    (stored : next.storage id =
      (commandsOf actions).foldl ClusterNode.applyCommand (config.storage id)) :
    Reflects peers (⟨config, event, answer, next⟩ :: history) next later id := by
  have before : (config.raft id).state.lastApplied ≤ reach id history config := Nat.le_max_left _ _
  have commit : (next.raft id).state.commitIndex ≤ reach id history config := by
    rw [silent.commit, ← calling.settled.applied]
    exact before
  rw [silent.commands] at stored
  refine calling.reflects.keep calling.sound calling.steps (reach_next_eq ?_ ?_) ?_ ?_ ?_
  · rw [appliedAt_eq whole]
    exact before
  · rw [calling.settledLater.applied]
    exact commit
  · exact calling.reflects.leads_silently calling.sound calling.represents calling.represented
      ascends silent.commit
  · rw [stored]
    exact calling.reflects.intact
  · rw [stored]
    rfl

/-- Entries are applied up to an index no lower than what was ever applied. -/
theorem reflects_advance (calling : Calling peers history config ledger later id (next.raft id))
    (whole : forall begun bound, event = .crash begun bound -> begun.actor ≠ id) {high : Nat}
    (applies : RaftNode.Applies (config.raft id) (next.raft id) actions high)
    (notBefore : reach id history config ≤ high)
    (stored : next.storage id =
      (commandsOf actions).foldl ClusterNode.applyCommand (config.storage id)) :
    Reflects peers (⟨config, event, answer, next⟩ :: history) next later id := by
  have bound := calling.settledLater.bound
  have durable := calling.settledLater.durable
  rw [applies.commit] at bound durable
  have reached : reach id (⟨config, event, answer, next⟩ :: history) next = high := by
    have applied := calling.settledLater.applied
    have during : appliedAt id ⟨config, event, answer, next⟩ = (config.raft id).state.lastApplied :=
      appliedAt_eq whole
    rw [applies.commit] at applied
    simp only [reach, everApplied, during, applied] at notBefore ⊢
    omega
  rw [applies.commands] at stored
  rcases calling.shows_applied notBefore bound stored with ⟨intact, shown⟩
  refine ⟨?_, ?_, fun _ => Or.inl ?_, intact, ?_⟩ <;> rw [reached]
  · exact bound
  · exact durable
  · exact applies.commit
  · exact shown

/-- The server comes up after a crash before the first entry that the section applies. -/
theorem reflects_unapplied (calling : Calling peers history config ledger later id node)
    (restart : StepsOf peers id later final) {bound : Nat}
    (during : appliedAt id ⟨config, event, answer, next⟩ =
      max (config.raft id).state.lastApplied bound)
    (early : bound ≤ (config.raft id).state.lastApplied)
    (awakened : RaftNode.Awakened id peers (next.raft id))
    (applies : RaftNode.Silent (config.raft id) node actions ∨
      Exists fun high => RaftNode.Applies (config.raft id) node actions high)
    (salvages : Salvages (config.storage id) actions bound (next.storage id)) :
    Reflects peers (⟨config, event, answer, next⟩ :: history) next final id := by
  have nothing : commandsOf (actions.takeWhile (upTo bound)) = [] := by
    rcases applies with silent | ⟨high, applied⟩
    · exact silent.commands_takeWhile bound
    · rw [applied.commands_takeWhile, RaftNode.applications_eq_nil _
        (Nat.le_trans (Nat.min_le_left _ _) early)]
      rfl
  unfold Salvages at salvages
  rw [nothing] at salvages
  refine calling.reflects.reopen calling.sound (calling.steps.trans restart) awakened ?_ salvages
  rw [during, Nat.max_eq_left early]
  exact Nat.le_max_left _ _

/-- The server comes up after a crash that the section has got to with no less applied
than ever before.  What the section had applied is durable, and so is still in the log. -/
theorem reflects_reapplied (calling : Calling peers history config ledger later id node)
    (restart : StepsOf peers id later final) {bound high : Nat}
    (during : appliedAt id ⟨config, event, answer, next⟩ =
      max (config.raft id).state.lastApplied bound)
    (notBefore : reach id history config ≤ bound) (inside : bound ≤ high)
    (awakened : RaftNode.Awakened id peers (next.raft id))
    (applied : RaftNode.Applies (config.raft id) node actions high)
    (salvages : Salvages (config.storage id) actions bound (next.storage id)) :
    Reflects peers (⟨config, event, answer, next⟩ :: history) next final id := by
  unfold Salvages at salvages
  rw [applied.commands_takeWhile, Nat.min_eq_left inside] at salvages
  have settled := calling.settledLater
  have within : bound ≤ (later.log id).length :=
    Nat.le_trans inside (applied.commit ▸ settled.bound)
  rcases calling.shows_applied notBefore within rfl with ⟨⟨entries, holds⟩, shown⟩
  rcases holds.reopen with ⟨reopened, same, held, again⟩
  rw [salvages] at same
  cases same
  have soundLater := calling.steps.sound calling.sound
  have moves := restart.moves soundLater
  have part : (later.log id).take bound <+: (later.log id).take node.state.commitIndex := by
    rw [applied.commit]
    exact List.take_prefix_take_left inside
  have durable := settled.durable.of_isPrefix part
  have kept := restart.keeps_durable soundLater durable (List.take_prefix _ _)
  have front := take_eq_of_isPrefix within kept
  have reached : reach id (⟨config, event, answer, next⟩ :: history) next = bound := by
    simp only [reach, everApplied, during, awakened.applied] at notBefore ⊢
    omega
  have length := kept.length_le
  rw [List.length_take_of_le within] at length
  refine ⟨?_, ?_, ?_, ⟨entries, held⟩, ?_⟩
  · rw [reached]
    exact length
  · rw [reached, front]
    exact durable.mono moves.toExtends (moves.term_le _)
  · rw [awakened.role]
    rintro ⟨⟩
  · rw [reached, front, again, shown]

/-- The server comes up after a crash in the section of the call: the section had
applied nothing, or no less than was ever applied. -/
theorem reflects_salvaged (calling : Calling peers history config ledger later id node)
    (restart : StepsOf peers id later final) {begun : Event} {bound : Nat}
    (crashed : event = .crash begun bound) (own : begun.actor = id)
    (awakened : RaftNode.Awakened id peers (next.raft id))
    (applies : RaftNode.Silent (config.raft id) node actions ∨
      Exists fun high => RaftNode.Applies (config.raft id) node actions high)
    (inside : bound ≤ node.state.lastApplied) (catches : CatchesUpAt history config event)
    (salvages : Salvages (config.storage id) actions bound (next.storage id)) :
    Reflects peers (⟨config, event, answer, next⟩ :: history) next final id := by
  subst crashed
  subst own
  have during : appliedAt begun.actor ⟨config, .crash begun bound, answer, next⟩ =
      max (config.raft begun.actor).state.lastApplied bound := if_pos rfl
  have committed := calling.settledLater.applied
  by_cases early : bound ≤ (config.raft begun.actor).state.lastApplied
  · exact calling.reflects_unapplied restart during early awakened applies salvages
  · have notBefore : reach begun.actor history config ≤ bound :=
      Nat.max_le.mpr ⟨Nat.le_of_not_le early, catches.resolve_left early⟩
    rcases applies with silent | ⟨high, applied⟩
    · have same := silent.commit
      rw [← committed, ← calling.settled.applied] at same
      rw [same] at inside
      exact absurd inside early
    · rw [applied.commit] at committed
      exact calling.reflects_reapplied restart during notBefore (committed ▸ inside) awakened applied
        salvages

end Calling

/-! ## Steps and runs -/

/-- The Raft cluster and the ledger behind the servers, and what every server
shows. -/
structure Recovers (peers : List Nat) (history : List Transition) (config : Configuration)
    (image : Cluster.Configuration) (ledger : Ledger Nat LogEntry) : Prop where
  projects : Projects config image
  sound : SoundFor peers ledger
  simulates : Simulates peers image ledger
  commits : Commits peers image ledger
  carries : Carries peers CleanEntry image
  reflects : forall id, id ∈ peers -> Reflects peers history config ledger id

/-- Prudence looks at the nodes only. -/
theorem prudent_congr {left right : Cluster.Configuration} (same : left.nodes = right.nodes)
    {event : Cluster.Event} (prudent : Prudent left event) : Prudent right event := by
  cases event with
  | deliver packet =>
      rcases packet with ⟨recipient, message⟩
      cases message with
      | appendEntries sender request =>
          change _ ∧ _
          rw [← same]
          exact prudent
      | appendEntriesResponse sender response =>
          change ¬ _
          rw [← same]
          exact prudent
      | requestVote sender request => exact True.intro
      | requestVoteResponse sender response => exact True.intro
  | tick id => exact True.intro
  | propose id command => exact True.intro
  | restart id => exact True.intro

theorem Event.Causes.prudent {cause : Cluster.Event} (causes : event.Causes cause)
    (careful : Careful config event) {image : Cluster.Configuration}
    (nodes : image.nodes = config.raft) : Prudent image cause := by
  cases causes with
  | deliver => exact prudent_congr nodes.symm careful
  | tick => exact True.intro
  | write written => exact True.intro
  | restart => exact True.intro

/-- The entries of what clients ask for at the event are good. -/
def Requests (Good : LogEntry -> Prop) (event : Event) : Prop :=
  forall command logged ok, event.request = some command ->
    command.written = some (logged, ok) -> forall term, Good ⟨term, logged⟩

theorem Event.Causes.proposes {Good : LogEntry -> Prop} {cause : Cluster.Event}
    (causes : event.Causes cause) (requests : Requests Good event) : Proposes Good cause := by
  cases causes with
  | write written => exact requests _ _ _ rfl written
  | tick => exact True.intro
  | deliver => exact True.intro
  | restart => exact True.intro

theorem CleanRequest.requests (clean : CleanRequest event) : Requests CleanEntry event := by
  intro command logged ok asked written _
  have cleanly := clean command asked
  cases command with
  | set key value =>
      cases written
      exact cleanly
  | del key =>
      cases written
      exact cleanly
  | get key => cases written
  | ping => cases written
  | unknown name => cases written

theorem Event.Causes.catchesUpAt {cause : Cluster.Event} (causes : event.Causes cause) {sender : Nat}
    {request : AppendEntriesRequest}
    (delivered : cause = .deliver ⟨cause.actor, .appendEntries sender request⟩)
    (catches : CatchesUpAt history config event) :
    CatchesUpAt history config (.deliver ⟨event.actor, .appendEntries sender request⟩) := by
  cases causes with
  | @deliver packet =>
      rcases packet with ⟨recipient, message⟩
      cases delivered
      exact catches
  | tick => cases delivered
  | write written => cases delivered
  | restart => cases delivered

/-- An event with a cause is no crash in a section. -/
theorem Event.Causes.whole {cause : Cluster.Event} (causes : event.Causes cause) (id : Nat)
    (begun : Event) (bound : Nat) (crashed : event = .crash begun bound) : begun.actor ≠ id := by
  cases causes <;> cases crashed

/-- What is known around the step that an event causes. -/
theorem Recovers.calling {image after : Cluster.Configuration} {cause : Cluster.Event}
    {actions : List Action} (recovers : Recovers peers history config image ledger)
    (same : cause.actor = event.actor) (stepped : image.step peers cause = some (after, actions))
    (carries : Carries peers CleanEntry after)
    (step : StepCommits peers image after cause actions ledger later) :
    Calling peers history config ledger later event.actor (after.nodes event.actor) := by
  rcases Cluster.Configuration.step_eq_some.mp stepped with ⟨member, _⟩
  rw [same] at member
  exact {
    reflects := recovers.reflects _ member
    sound := recovers.sound
    steps := same ▸ step.steps
    represents := recovers.projects.nodes ▸ recovers.simulates.nodes _ member
    represented := step.simulates.nodes _ member
    settled := recovers.projects.nodes ▸ recovers.commits.nodes _ member
    settledLater := step.commits.nodes _ member
    clean := carries.logs _ member }

/-- What the acting server shows after a step of its Raft node. -/
theorem Recovers.reflects_actor {image after : Cluster.Configuration} {cause : Cluster.Event}
    {actions : List Action} (recovers : Recovers peers history config image ledger)
    (catches : CatchesUpAt history config event) (causes : event.Causes cause)
    (stepped : image.step peers cause = some (after, actions)) (projects : Projects next after)
    (carries : Carries peers CleanEntry after)
    (stores : Stores (config.storage event.actor) cause actions (next.storage event.actor))
    (step : StepCommits peers image after cause actions ledger later) :
    Reflects peers (⟨config, event, answer, next⟩ :: history) next later event.actor := by
  have calling := recovers.calling causes.actor_eq stepped carries step
  rw [projects.nodes] at calling
  rcases Cluster.Configuration.step_eq_some.mp stepped with ⟨_, _, node, response, rfl⟩
  have here : image.nodes cause.actor = config.raft event.actor := by
    rw [causes.actor_eq, recovers.projects.nodes]
  have there : next.raft event.actor = node := by
    rw [← projects.nodes, ← causes.actor_eq, Cluster.Configuration.install_nodes_self]
  have whole := causes.whole event.actor
  generalize restored : next.storage event.actor = storage at stores
  cases stores with
  | reopens opened =>
      cases response
      rw [← restored] at opened
      refine calling.reflects.reopen calling.sound calling.steps ?_ ?_ opened
      · rw [there]
        have same := causes.actor_eq
        rw [← same]
        exact Cluster.Configuration.awakened_restarted peers _ _
      · rw [appliedAt_eq whole]
        exact Nat.le_max_left _ _
  | applies running =>
      have ascends := respond_ascends running response
      rw [here, ← there] at ascends
      rcases respond_applies running response with silent | ⟨request, applies⟩ | ⟨high, applies⟩
      · rw [here, ← there] at silent
        exact calling.reflects_silently whole silent ascends restored
      · rcases applies.delivered with ⟨sender, delivered⟩
        have accepts := applies.accepts
        have above := applies.above
        have applied := applies.toApplies
        rw [here] at accepts above applied
        rw [← there] at applied
        have told := reach_le_of_followerApplies calling.settled
          (causes.catchesUpAt delivered catches) accepts above
        exact calling.reflects_advance whole applied
          (Nat.le_min.mpr ⟨told, calling.le_lastIndex⟩) restored
      · rw [here, ← there] at applies
        have beyond := calling.reflects.le_of_leaderApplies calling.represents calling.represented
          calling.kept applies
        exact calling.reflects_advance whole applies.toApplies beyond restored

theorem awakened_of_restart {image after : Cluster.Configuration} {actions : List Action}
    (restarted : image.step peers (.restart id) = some (after, actions)) :
    RaftNode.Awakened id peers (after.nodes id) := by
  rcases Cluster.Configuration.step_eq_some.mp restarted with ⟨_, _, _, returned, rfl⟩
  cases returned
  exact (Cluster.Configuration.install_nodes_self image id _ []).symm ▸
    Cluster.Configuration.awakened_restarted peers id (image.nodes id)

/-- What the acting server shows when it comes up after a crash in a section. -/
theorem Recovers.reflects_crashed {image middle after : Cluster.Configuration}
    {cause : Cluster.Event} {actions : List Action} {begun : Event} {bound : Nat}
    (recovers : Recovers peers history config image ledger)
    (catches : CatchesUpAt history config event) (crashed : event = .crash begun bound)
    (causes : begun.Causes cause) (running : forall id, cause ≠ .restart id)
    (stepped : image.step peers cause = some (middle, actions))
    (inside : bound ≤ (middle.nodes event.actor).state.lastApplied)
    (restarted : middle.step peers (.restart event.actor) = some (after, []))
    (projects : Projects next after) (carries : Carries peers CleanEntry middle)
    (salvages : Salvages (config.storage event.actor) actions bound (next.storage event.actor))
    (step : StepCommits peers image middle cause actions ledger later)
    (restart : StepCommits peers middle after (.restart event.actor) [] later final) :
    Reflects peers (⟨config, event, answer, next⟩ :: history) next final event.actor := by
  have same : cause.actor = event.actor := by
    rw [causes.actor_eq, crashed]
    rfl
  have calling := recovers.calling same stepped carries step
  rcases Cluster.Configuration.step_eq_some.mp stepped with ⟨_, _, node, response, rfl⟩
  have applies := respond_applies running response
  have here : image.nodes cause.actor = config.raft event.actor := by
    rw [same, recovers.projects.nodes]
  have there : (image.install cause.actor node actions).nodes event.actor = node := by
    rw [← same, Cluster.Configuration.install_nodes_self]
  have awakened : RaftNode.Awakened event.actor peers (next.raft event.actor) := by
    rw [← projects.nodes]
    exact awakened_of_restart restarted
  rw [here] at applies
  rw [there] at calling inside
  refine calling.reflects_salvaged restart.steps crashed (by rw [crashed]; rfl) awakened ?_ inside
    catches salvages
  rcases applies with silent | ⟨_, applies⟩ | ⟨high, applies⟩
  · exact Or.inl silent
  · exact Or.inr ⟨_, applies.toApplies⟩
  · exact Or.inr ⟨high, applies.toApplies⟩

/-- What a step leaves behind: a cluster and a ledger that go on from the old
ones.  Only the acting server may show more than before. -/
structure Proceeds (peers : List Nat) (history : List Transition) (config : Configuration)
    (image : Cluster.Configuration) (ledger : Ledger Nat LogEntry) (event : Event)
    (answer : Option Response) (next : Configuration) (after : Cluster.Configuration)
    (later : Ledger Nat LogEntry) : Prop where
  recovers : Recovers peers (⟨config, event, answer, next⟩ :: history) next after later
  grows : Extends ledger later
  carries : forall Good, Requests Good event -> Carries peers Good image -> Carries peers Good after
  others : forall id, id ∈ peers -> id ≠ event.actor -> later.log id = ledger.log id ∧
    reach id (⟨config, event, answer, next⟩ :: history) next = reach id history config

/-- A step of another server. -/
theorem Reflects.other {actor : Nat} (reflects : Reflects peers history config ledger id)
    (sound : SoundFor peers ledger) (steps : StepsOf peers actor ledger later)
    (acting : event.actor = actor) (distant : id ≠ actor) (sameRaft : next.raft id = config.raft id)
    (sameStorage : next.storage id = config.storage id) :
    Reflects peers (⟨config, event, answer, next⟩ :: history) next later id ∧
      later.log id = ledger.log id ∧
      reach id (⟨config, event, answer, next⟩ :: history) next = reach id history config := by
  have moves := steps.moves sound
  have elsewhere : forall begun bound, event = .crash begun bound -> begun.actor ≠ id := by
    rintro begun bound rfl rfl
    exact distant acting
  have before : (config.raft id).state.lastApplied ≤ reach id history config := Nat.le_max_left _ _
  refine ⟨reflects.frame sound steps elsewhere (moves.term_eq distant) sameRaft sameStorage,
    moves.log_eq distant, reach_next_eq ?_ ?_⟩
  · rw [appliedAt_eq elsewhere]
    exact before
  · rw [sameRaft]
    exact before

/-- The other servers, once the ledger has moved at the acting one. -/
theorem Recovers.others {image : Cluster.Configuration}
    (recovers : Recovers peers history config image ledger)
    (stepped : config.step peers event = some (next, answer))
    (steps : StepsOf peers event.actor ledger later) (listed : id ∈ peers)
    (different : id ≠ event.actor) :
    Reflects peers (⟨config, event, answer, next⟩ :: history) next later id ∧
      later.log id = ledger.log id ∧
      reach id (⟨config, event, answer, next⟩ :: history) next = reach id history config := by
  rcases Configuration.step_eq_some.mp stepped with ⟨_, _, server, _, rfl⟩
  refine (recovers.reflects id listed).other recovers.sound steps rfl different ?_
    (config.install_storage_of_ne server different)
  rw [Configuration.install_raft, Function.update_of_ne different]

/-- A step that a crash cuts off: the cluster takes the whole step, and the restart. -/
theorem Recovers.proceeds_crashed (distinct : peers.Nodup)
    {image middle after : Cluster.Configuration} {cause : Cluster.Event} {actions : List Action}
    {begun : Event} {bound : Nat} (recovers : Recovers peers history config image ledger)
    (clean : CleanRequest event) (careful : Careful config event)
    (catches : CatchesUpAt history config event)
    (stepped : config.step peers event = some (next, answer)) (crashed : event = .crash begun bound)
    (causes : begun.Causes cause) (running : forall id, cause ≠ .restart id)
    (moved : image.step peers cause = some (middle, actions))
    (inside : bound ≤ (middle.nodes event.actor).state.lastApplied)
    (restarted : middle.step peers (.restart event.actor) = some (after, []))
    (projects : Projects next after)
    (salvages : Salvages (config.storage event.actor) actions bound (next.storage event.actor)) :
    Exists fun final =>
      Proceeds peers history config image ledger event answer next after final := by
  have carefully : Careful config begun := by
    rw [crashed] at careful
    exact careful
  have requested : forall Good, Requests Good event -> Requests Good begun := by
    intro Good requests
    rw [crashed] at requests
    exact requests
  have awakes : Prudent middle (.restart event.actor) := True.intro
  have silent : forall Good, Proposes Good (.restart event.actor) := fun _ => True.intro
  rcases recovers.commits.step distinct recovers.simulates recovers.sound
    (causes.prudent carefully recovers.projects.nodes) moved with ⟨later, step⟩
  have sound := step.steps.sound recovers.sound
  rcases step.commits.step distinct step.simulates sound awakes restarted with ⟨final, restart⟩
  have carries := recovers.carries.step recovers.simulates
    (causes.proposes (requested _ clean.requests)) moved
  have same : cause.actor = event.actor := by
    rw [causes.actor_eq, crashed]
    rfl
  have first : StepsOf peers event.actor ledger later := same ▸ step.steps
  have steps : StepsOf peers event.actor ledger final := first.trans restart.steps
  refine ⟨final, ⟨projects, restart.steps.sound sound, restart.simulates, restart.commits,
    carries.step step.simulates (silent _) restarted, fun id listed => ?_⟩,
    (steps.moves recovers.sound).toExtends, fun _ requests good => ?_,
    fun _ listed different => (recovers.others stepped steps listed different).2⟩
  · by_cases acting : id = event.actor
    · subst acting
      exact recovers.reflects_crashed catches crashed causes running moved inside restarted
        projects carries salvages step restart
    · exact (recovers.others stepped steps listed acting).1
  · have between := good.step recovers.simulates (causes.proposes (requested _ requests)) moved
    exact between.step step.simulates (silent _) restarted

theorem Recovers.proceeds (distinct : peers.Nodup) {image : Cluster.Configuration}
    (recovers : Recovers peers history config image ledger) (clean : CleanRequest event)
    (careful : Careful config event) (catches : CatchesUpAt history config event)
    (stepped : config.step peers event = some (next, answer)) :
    Exists fun after => Exists fun later =>
      Proceeds peers history config image ledger event answer next after later := by
  cases recovers.projects.step stepped with
  | quiet whole raft storage projects =>
      have steps : StepsOf peers event.actor ledger ledger := .refl
      refine ⟨image, ledger, ⟨projects, recovers.sound, recovers.simulates, recovers.commits,
        recovers.carries, fun id listed => ?_⟩, .refl ledger, fun _ _ carries => carries,
        fun _ listed different => (recovers.others stepped steps listed different).2⟩
      exact (recovers.reflects id listed).frame recovers.sound steps
        (fun begun bound crashed => absurd crashed (whole begun bound)) rfl (congrFun raft id)
        (congrFun storage id)
  | moves cause actions after causes moved projects stores _ =>
      rcases recovers.commits.step distinct recovers.simulates recovers.sound
        (causes.prudent careful recovers.projects.nodes) moved with ⟨later, step⟩
      have carries := recovers.carries.step recovers.simulates (causes.proposes clean.requests) moved
      have steps : StepsOf peers event.actor ledger later := causes.actor_eq ▸ step.steps
      refine ⟨after, later, ⟨projects, step.steps.sound recovers.sound, step.simulates, step.commits,
        carries, fun id listed => ?_⟩, (steps.moves recovers.sound).toExtends,
        fun _ requests good => good.step recovers.simulates (causes.proposes requests) moved,
        fun _ listed different => (recovers.others stepped steps listed different).2⟩
      by_cases acting : id = event.actor
      · subst acting
        exact recovers.reflects_actor catches causes moved projects carries stores step
      · exact (recovers.others stepped steps listed acting).1
  | crashes begun bound cause actions middle after crashed causes running moved inside restarted
      projects salvages _ =>
      exact ⟨after, recovers.proceeds_crashed distinct clean careful catches stepped crashed causes
        running moved inside restarted projects salvages⟩

theorem Recovers.step (distinct : peers.Nodup) {image : Cluster.Configuration}
    (recovers : Recovers peers history config image ledger) (clean : CleanRequest event)
    (careful : Careful config event) (catches : CatchesUpAt history config event)
    (stepped : config.step peers event = some (next, answer)) :
    Exists fun after => Exists fun later =>
      Recovers peers (⟨config, event, answer, next⟩ :: history) next after later := by
  rcases recovers.proceeds distinct clean careful catches stepped with ⟨after, later, proceeds⟩
  exact ⟨after, later, proceeds.recovers⟩

theorem reflects_initial (peers : List Nat) (id : Nat) :
    Reflects peers [] (.initial peers) (Ledger.blank : Ledger Nat LogEntry) id where
  bound := Nat.zero_le _
  durable := Or.inl rfl
  leads := by rintro ⟨⟩
  intact := ⟨[], StorageEngine.holds_empty⟩
  shows := StorageEngine.get_empty

theorem recovers_initial (peers : List Nat) :
    Recovers peers [] (.initial peers) (.initial peers) (Ledger.blank : Ledger Nat LogEntry) where
  projects := projects_initial peers
  sound := sound_blank
  simulates := simulates_initial peers
  commits := commits_initial peers
  carries := ⟨fun id _ entry listed => by
    rw [List.mem_singleton.mp listed]
    exact True.intro, fun _ _ _ listed => (List.not_mem_nil listed).elim⟩
  reflects id _ := reflects_initial peers id

theorem Run.recovers (distinct : peers.Nodup) (run : Run peers history config)
    (clean : Meets (fun _ => CleanRequest) history) (careful : Meets Careful history)
    (catches : CatchesUp history) :
    Exists fun image => Exists fun ledger => Recovers peers history config image ledger := by
  induction run with
  | start begins =>
      cases begins
      exact ⟨_, _, recovers_initial peers⟩
  | next run stepped inductionHypothesis =>
      rcases inductionHypothesis clean.earlier careful.earlier catches.2 with
        ⟨image, ledger, recovers⟩
      exact recovers.step distinct clean.last careful.last catches.1 stepped

/-- **Storage is a prefix state.**  After every run of clean requests whose steps
are careful and catch up with what was ever applied, a server shows the contents
of the first entries of its log. -/
theorem storage_prefix (distinct : peers.Nodup) (run : Run peers history config)
    (clean : Meets (fun _ => CleanRequest) history) (careful : Meets Careful history)
    (catches : CatchesUp history) (member : id ∈ peers) :
    Exists fun count => count ≤ (config.raft id).state.log.lastIndex ∧
      (config.storage id).get = contents ((config.raft id).state.log.body.take count) := by
  rcases Run.recovers distinct run clean careful catches with ⟨image, ledger, recovers⟩
  have reflects := recovers.reflects id member
  have represents := recovers.simulates.nodes id member
  rw [recovers.projects.nodes] at represents
  rw [RaftLog.lastIndex_eq_length_body, represents.log_eq, RaftLog.body_mk]
  exact ⟨reach id history config, reflects.bound, reflects.shows⟩

set_option maxRecDepth 100000 in
/-- The run in which node 2 is told again of all three writes meets the conditions,
with a restart and two crashes in it, and node 2 shows a part of its log. -/
theorem storage_prefix_resumed :
    Exists fun history => Exists fun final => Run [1, 2, 3] history final ∧
      Meets (fun _ => CleanRequest) history ∧ Meets Careful history ∧ CatchesUp history ∧
      (final.storage 2).get "k" = some "b" ∧
      Exists fun count => count ≤ (final.raft 2).state.log.lastIndex ∧
        (final.storage 2).get = contents ((final.raft 2).state.log.body.take count) := by
  have checked : (execute [1, 2, 3] resumed).any (fun result =>
      decide (Meets (fun _ => CleanRequest) result.1 ∧ Meets Careful result.1 ∧
        CatchesUp result.1 ∧ (result.2.storage 2).get "k" = some "b")) = true := by decide +kernel
  rcases exists_run checked with ⟨history, final, run, holds⟩
  rcases of_decide_eq_true holds with ⟨clean, careful, catches, shown⟩
  exact ⟨history, final, run, clean, careful, catches, shown,
    storage_prefix (by decide) run clean careful catches (by decide)⟩

set_option maxRecDepth 100000 in
/-- After the old request node 2 shows the first write of one key and the only
write of the other, which no part of its log leads to. -/
theorem storage_regresses :
    ¬ forall history final, Run [1, 2, 3] history final ->
      Meets (fun _ => CleanRequest) history -> forall id, id ∈ [1, 2, 3] ->
      Exists fun count =>
        (final.storage id).get = contents ((final.raft id).state.log.body.take count) := by
  intro always
  have checked : (execute [1, 2, 3] regressed).any (fun result =>
      decide (Meets (fun _ => CleanRequest) result.1 ∧
        (result.2.storage 2).get "k" = some "a" ∧ (result.2.storage 2).get "j" = some "c" ∧
        (result.2.raft 2).state.log.body =
          [⟨1, .put "k" "a"⟩, ⟨1, .put "k" "b"⟩, ⟨1, .put "j" "c"⟩])) = true := by decide +kernel
  rcases exists_run checked with ⟨history, final, run, holds⟩
  rcases of_decide_eq_true holds with ⟨clean, first, second, log⟩
  rcases always history final run clean 2 (by decide) with ⟨count, shown⟩
  rw [shown, log] at first second
  match count with
  | 0 => cases first
  | 1 => exact absurd second (by decide)
  | 2 => exact absurd second (by decide)
  | more + 3 =>
      rw [List.take_of_length_le (by simp)] at first
      exact absurd first (by decide)

end Results
end Service
end RaftStore
