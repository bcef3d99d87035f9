import RaftStore.Cluster.Bounds
import RaftStore.Service.History
import RaftStore.Service.Shadows
import RaftStore.Service.Single

namespace RaftStore
namespace Service

open Raft Storage Systems Cluster

/-!
# Servers that keep going

A handler that panics takes its server down, since it does so under the lock.  In a
cluster of such servers this takes a term or a log at the end of its range.  A server
that has been down comes up again with what it had, as long as the texts of the clients
leave its log file readable.
-/

/-! ## Calls that return -/

section Calls

variable {node : ClusterNode}

theorem ClusterNode.write_returns (command : LogCommand) (ok : Response) :
    (Exists fun result => node.write command ok = .ok result) <->
      (Call.propose command).Safe node.raft := by
  unfold ClusterNode.write
  by_cases leads : node.raft.state.role = .leader
  · rw [if_neg (not_not.mpr leads)]
    refine (Outcome.returns_bind fun result => ?_).trans (propose_returns command)
    rcases result with ⟨raft, _ | actions⟩ <;> exact ⟨_, rfl⟩
  · rw [if_pos leads]
    exact ⟨fun _ leader => absurd leader leads, fun _ => ⟨_, rfl⟩⟩

/-- A command of a client returns when what it writes can be proposed. -/
theorem ClusterNode.handleClientCommand_returns_iff (alone : node.router = none)
    (command : Command) :
    (Exists fun result => node.handleClientCommand command = .ok result) <->
      forall logged ok, command.written = some (logged, ok) ->
        (Call.propose logged).Safe node.raft := by
  have here := ClusterNode.moved_of_alone alone
  cases command with
  | get key =>
      refine ⟨fun _ _ _ impossible => (by cases impossible), fun _ => ?_⟩
      simp only [handleClientCommand, here]
      split <;> exact ⟨_, rfl⟩
  | set key value =>
      simp only [handleClientCommand, here, write_returns, Command.written, Option.some.injEq,
        Prod.mk.injEq, and_imp, forall_eq', forall_apply_eq_imp_iff]
  | del key =>
      simp only [handleClientCommand, here, write_returns, Command.written, Option.some.injEq,
        Prod.mk.injEq, and_imp, forall_eq', forall_apply_eq_imp_iff]
  | ping => exact ⟨fun _ _ _ impossible => (by cases impossible), fun _ => ⟨_, rfl⟩⟩
  | unknown name => exact ⟨fun _ _ _ impossible => (by cases impossible), fun _ => ⟨_, rfl⟩⟩

end Calls

section Running

variable {peers : List Nat} {history : List Transition} {config : Configuration} {id : Nat}

/-- A step is possible when its call returns. -/
theorem Configuration.steps_iff (event : Event) (member : event.actor ∈ peers)
    (enabled : config.Enabled event) :
    (Exists fun result => config.step peers event = some result) <->
      Exists fun result => (config.servers event.actor).respond peers event = some result := by
  constructor
  · rintro ⟨⟨next, answer⟩, stepped⟩
    rcases Configuration.step_eq_some.mp stepped with ⟨_, _, server, responded, _⟩
    exact ⟨_, responded⟩
  · rintro ⟨⟨server, answer⟩, responded⟩
    exact ⟨_, Configuration.step_eq_some.mpr ⟨member, enabled, server, responded, rfl⟩⟩

/-- An outcome that is taken as an option is there when it returns. -/
theorem exists_toOption_map {α β : Type} {outcome : Outcome α} {wrap : α -> β} :
    (Exists fun result => outcome.toOption.map wrap = some result) <->
      Exists fun value => outcome = .ok value := by
  constructor
  · rintro ⟨result, mapped⟩
    rcases Option.map_eq_some_iff.mp mapped with ⟨value, present, _⟩
    exact ⟨value, toOption_eq_some.mp present⟩
  · rintro ⟨value, returned⟩
    exact ⟨wrap value, Option.map_eq_some_iff.mpr ⟨value, toOption_eq_some.mpr returned, rfl⟩⟩

/-- **Nothing stops a server but the end of a range.**  Any packet on the way is taken
in, in any order and however late.  A tick is taken in unless it starts an election in
the last term, and a command of a client unless it is to be appended to a log that is
full. -/
theorem calls_return (run : Run peers history config) (member : id ∈ peers) :
    (forall packet, packet ∈ config.network -> packet.recipient = id ->
      Exists fun result => config.step peers (.deliver packet) = some result) ∧
    ((Exists fun result => config.step peers (.tick id) = some result) <->
      Call.tick.Safe (config.raft id)) ∧
    ((config.servers id).session = none -> forall command,
      (Exists fun result => config.step peers (.client id command) = some result) <->
        forall logged ok, command.written = some (logged, ok) ->
          (Call.propose logged).Safe (config.raft id)) := by
  rcases run.shadows with ⟨past, image, shadows⟩
  refine ⟨?_, ?_, ?_⟩
  · rintro packet listed rfl
    apply (Configuration.steps_iff (.deliver packet) member listed).mpr
    refine exists_toOption_map.mpr ((dispatchMessage_returns _ _).mpr ?_)
    have taken := shadows.run.takes_in (shadows.projects.network listed)
    rw [shadows.projects.nodes] at taken
    exact taken
  · refine (Configuration.steps_iff (.tick id) member True.intro).trans ?_
    refine exists_toOption_map.trans ?_
    exact (Outcome.returns_bind fun _ => ⟨_, rfl⟩).trans tick_returns
  · intro free command
    refine (Configuration.steps_iff (.client id command) member True.intro).trans ?_
    have asked : (config.servers id).respond peers (.client id command) =
        ((config.servers id).ask command).toOption.map fun result => result := by
      unfold Server.respond
      simp only [free, Option.map_id']
    change (Exists fun result => (config.servers id).respond peers _ = some result) <-> _
    rw [asked]
    refine exists_toOption_map.trans (Iff.trans ?_
      (ClusterNode.handleClientCommand_returns_iff (run.unsharded id) command))
    refine Outcome.returns_bind fun result => ?_
    dsimp only
    split <;> exact ⟨_, rfl⟩

set_option maxRecDepth 100000 in
/-- Node 2 has restarted.  It takes in any of the old packets that are still on the way to
it, in particular a request from before. -/
theorem calls_return_threeWrites :
    Exists fun history => Exists fun final => Run [1, 2, 3] history final ∧
      Exists fun result => final.step [1, 2, 3]
        (.deliver ⟨2, .appendEntries 1 ⟨1, 1, 1, 1, [⟨1, .put "k" "b"⟩], 1⟩⟩) = some result := by
  have checked : (execute [1, 2, 3] threeWrites).any (fun result =>
      decide (⟨2, .appendEntries 1 ⟨1, 1, 1, 1, [⟨1, .put "k" "b"⟩], 1⟩⟩ ∈ result.2.network)) =
        true := by decide +kernel
  rcases exists_run checked with ⟨history, final, run, listed⟩
  exact ⟨history, final, run, (calls_return run (show 2 ∈ [1, 2, 3] by decide)).1 _
    (of_decide_eq_true listed) rfl⟩

/-! ## Coming up again -/

/-- The log file of every server is readable, and nothing is on its way there that would
change this. -/
structure Readable (peers : List Nat) (config : Configuration) (image : Cluster.Configuration) :
    Prop where
  run : Exists fun past => Cluster.Run peers past image
  projects : Projects config image
  carries : Carries peers CleanEntry image
  intact : forall id, Intact (config.storage id)

/-- What a Raft node applies at a step is clean if its log is. -/
theorem clean_commandsOf_step {image after : Cluster.Configuration} {cause : Cluster.Event}
    {actions : List Action} (running : forall id, cause ≠ .restart id)
    (stepped : image.step peers cause = some (after, actions))
    (carries : Carries peers CleanEntry after) {command : LogCommand}
    (listed : command ∈ commandsOf actions) : CleanCommand command := by
  rcases Cluster.Configuration.step_eq_some.mp stepped with ⟨member, _, node, response, rfl⟩
  have clean := carries.logs cause.actor member
  rw [Cluster.Configuration.install_nodes_self] at clean
  rcases respond_applies running response with silent | ⟨request, applies⟩ | ⟨high, applies⟩
  · rw [silent.commands] at listed
    cases listed
  · rw [applies.commands] at listed
    exact clean_commandsOf_applications clean listed
  · rw [applies.commands] at listed
    exact clean_commandsOf_applications clean listed

theorem Intact.reopen {before after : StorageEngine} (intact : Intact before)
    (opened : StorageEngine.new before.wal.file [] = .ok after) : Intact after := by
  rcases intact with ⟨entries, holds⟩
  rcases holds.reopen with ⟨reopened, same, held, _⟩
  rw [opened] at same
  cases same
  exact ⟨entries, held⟩

theorem Intact.stores {before after : StorageEngine} (intact : Intact before)
    {cause : Cluster.Event} {actions : List Action} (stores : Stores before cause actions after)
    (clean : (forall id, cause ≠ .restart id) -> forall command, command ∈ commandsOf actions ->
      CleanCommand command) : Intact after := by
  cases stores with
  | reopens opened => exact intact.reopen opened
  | applies running => exact intact.applyCommands (clean running)

/-- Whatever a crash has left out, the file can be read again. -/
theorem Intact.salvages {before after : StorageEngine} (intact : Intact before)
    {actions : List Action} {last : Nat} (salvages : Salvages before actions last after)
    (clean : forall command, command ∈ commandsOf actions -> CleanCommand command) :
    Intact after := by
  have part : commandsOf (actions.takeWhile (upTo last)) ⊆ commandsOf actions :=
    ((List.takeWhile_prefix _).sublist.filterMap _).subset
  exact (intact.applyCommands fun command listed => clean command (part listed)).reopen salvages

theorem Readable.step (distinct : peers.Nodup) {image : Cluster.Configuration}
    (readable : Readable peers config image) {event : Event} (request : CleanRequest event)
    {next : Configuration} {answer : Option Response}
    (stepped : config.step peers event = some (next, answer)) :
    Exists fun after => Readable peers next after := by
  rcases readable.run with ⟨past, ran⟩
  rcases Cluster.Run.traces distinct ran with ⟨ledger, traces⟩
  cases readable.projects.step stepped with
  | quiet whole raft storage projects =>
      exact ⟨image, readable.run, projects, readable.carries, storage ▸ readable.intact⟩
  | moves cause actions after causes moved projects stores others =>
      have carries := readable.carries.step traces.simulates
        (causes.proposes request.requests) moved
      refine ⟨after, ⟨_, ran.next moved⟩, projects, carries, fun id => ?_⟩
      by_cases acting : id = event.actor
      · subst acting
        exact (readable.intact _).stores stores
          fun running _ listed => clean_commandsOf_step running moved carries listed
      · rw [others id acting]
        exact readable.intact id
  | crashes begun last cause actions middle after crashed causes running moved inside restarted
      projects salvages others =>
      have begins : CleanRequest begun := by
        rw [crashed] at request
        exact request
      rcases Cluster.Run.traces distinct (ran.next moved) with ⟨ledger', traces'⟩
      have carries := readable.carries.step traces.simulates
        (causes.proposes begins.requests) moved
      have silent : Proposes CleanEntry (.restart event.actor) := True.intro
      refine ⟨after, ⟨_, (ran.next moved).next restarted⟩, projects,
        carries.step traces'.simulates silent restarted, fun id => ?_⟩
      by_cases acting : id = event.actor
      · subst acting
        exact (readable.intact _).salvages salvages
          fun _ listed => clean_commandsOf_step running moved carries listed
      · rw [others id acting]
        exact readable.intact id

theorem Run.readable (distinct : peers.Nodup) (run : Run peers history config)
    (clean : Meets (fun _ => CleanRequest) history) :
    Exists fun image => Readable peers config image := by
  induction run with
  | start begins =>
      cases begins
      refine ⟨_, ⟨[], .start rfl⟩, projects_initial peers,
        ⟨fun id _ entry listed => ?_, fun _ _ _ listed => ?_⟩,
        fun _ => ⟨[], StorageEngine.holds_empty⟩⟩
      · rw [List.mem_singleton.mp listed]
        exact True.intro
      · cases listed
  | next _ stepped inductionHypothesis =>
      rcases inductionHypothesis clean.earlier with ⟨image, readable⟩
      exact readable.step distinct clean.last stepped

/-- **A server comes up again.**  Whenever it goes down in a run in which the texts of the
clients are clean, it comes up with the map it had, and with its term, its vote and its
log. -/
theorem comes_back (distinct : peers.Nodup) (run : Run peers history config)
    (clean : Meets (fun _ => CleanRequest) history) (member : id ∈ peers) :
    Exists fun next => config.step peers (.restart id) = some (next, none) ∧
      (next.storage id).get = (config.storage id).get ∧
      Cluster.Configuration.Resumes (config.raft id) (next.raft id) := by
  rcases run.readable distinct clean with ⟨image, readable⟩
  rcases readable.run with ⟨past, ran⟩
  have tidy := (ranked_run ran).nodes id
  rw [readable.projects.nodes] at tidy
  rcases readable.intact id with ⟨entries, holds⟩
  rcases holds.reopen with ⟨storage, opened, _, shown⟩
  let raft := Cluster.Configuration.restarted peers id (config.raft id)
  have reopened : (config.servers id).reopen peers id = .ok ⟨.assemble raft storage none 1, none⟩ := by
    unfold Server.reopen ClusterNode.new
    change StorageEngine.new (config.servers id).node.storage.wal.file [] = .ok storage at opened
    rw [opened]
    rfl
  have responded : (config.servers id).respond peers (.restart id) =
      some (⟨.assemble raft storage none 1, none⟩, none) :=
    Option.map_eq_some_iff.mpr ⟨_, toOption_eq_some.mpr reopened, rfl⟩
  refine ⟨_, Configuration.step_eq_some.mpr ⟨member, True.intro, _, responded, rfl⟩, ?_, ?_⟩
  · exact (congrArg StorageEngine.get (config.install_storage_self id _)).trans shown
  · rw [Configuration.install_raft]
    change Cluster.Configuration.Resumes _ (Function.update config.raft id raft id)
    rw [Function.update_self]
    exact Cluster.Configuration.resumes_restarted peers id tidy.saved tidy.graded.kept

set_option maxRecDepth 100000 in
/-- Node 1 leads, has written three times and goes down. -/
theorem comes_back_threeWrites :
    Exists fun history => Exists fun final => Run [1, 2, 3] history final ∧
      (final.storage 1).get "k" = some "b" ∧ Exists fun next =>
        final.step [1, 2, 3] (.restart 1) = some (next, none) ∧
        (next.storage 1).get = (final.storage 1).get ∧
        Cluster.Configuration.Resumes (final.raft 1) (next.raft 1) := by
  have checked : (execute [1, 2, 3] threeWrites).any (fun result =>
      decide (Meets (fun _ => CleanRequest) result.1 ∧
        (result.2.storage 1).get "k" = some "b")) = true := by decide +kernel
  rcases exists_run checked with ⟨history, final, run, holds⟩
  rcases of_decide_eq_true holds with ⟨clean, shown⟩
  exact ⟨history, final, run, shown, comes_back (by decide) run clean (by decide)⟩

end Running
end Service
end RaftStore
