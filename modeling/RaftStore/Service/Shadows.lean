import RaftStore.Service.Projection

namespace RaftStore
namespace Service

open Raft Storage Systems Cluster

/-!
# The cluster behind the servers

A run of the servers is a run of the cluster of their Raft nodes in which some steps
do nothing, and a crash in the middle of a section is a step and a restart.  All that
was ever seen of the Raft nodes is seen in it.
-/

/-- The run of the cluster behind a run of the servers. -/
structure Shadows (peers : List Nat) (history : List Transition) (config : Configuration)
    (past : List Cluster.Transition) (image : Cluster.Configuration) : Prop where
  run : Cluster.Run peers past image
  projects : Projects config image
  visits : forall moment, Visits history config moment ->
    Exists fun seen => Visits past image seen ∧ seen.nodes = moment.raft

section Shadowing

variable {peers : List Nat} {history : List Transition} {config next : Configuration}
  {past longer : List Cluster.Transition} {image after : Cluster.Configuration} {event : Event}
  {answer : Option Response}

theorem shadows_initial (peers : List Nat) :
    Shadows peers [] (.initial peers) [] (.initial peers) := by
  refine ⟨.start rfl, projects_initial peers, ?_⟩
  rintro moment (rfl | ⟨transition, listed, _⟩)
  · exact ⟨_, Or.inl rfl, rfl⟩
  · exact (List.not_mem_nil listed).elim

/-- The cluster has gone on by itself until it is the image of the next step. -/
theorem Shadows.extend (shadows : Shadows peers history config past image)
    (run : Cluster.Run peers longer after) (projects : Projects next after)
    (later : forall seen, Visits past image seen -> Visits longer after seen) :
    Shadows peers (⟨config, event, answer, next⟩ :: history) next longer after := by
  refine ⟨run, projects, fun moment visits => ?_⟩
  rcases visits_next visits with rfl | earlier
  · exact ⟨after, Or.inl rfl, projects.nodes⟩
  · rcases shadows.visits moment earlier with ⟨seen, visited, same⟩
    exact ⟨seen, later seen visited, same⟩

/-- Every step of the servers is a step of the cluster behind them, or none, or a step and
a restart. -/
theorem Shadows.step (shadows : Shadows peers history config past image)
    (stepped : config.step peers event = some (next, answer)) :
    Exists fun longer => Exists fun after =>
      Shadows peers (⟨config, event, answer, next⟩ :: history) next longer after := by
  cases shadows.projects.step stepped with
  | quiet whole raft storage projects =>
      exact ⟨_, _, shadows.extend shadows.run projects fun _ visited => visited⟩
  | moves cause actions after causes moved projects stores others =>
      exact ⟨_, _, shadows.extend (shadows.run.next moved) projects fun _ visited => visited.later⟩
  | crashes begun last cause actions middle after same causes running moved inside restarted
      projects salvages others =>
      exact ⟨_, _, shadows.extend ((shadows.run.next moved).next restarted) projects
        fun _ visited => visited.later.later⟩

/-- Behind a run of the servers there is a run of the cluster, which goes through the
same states of the Raft nodes. -/
theorem Run.shadows (run : Run peers history config) :
    Exists fun past => Exists fun image => Shadows peers history config past image := by
  induction run with
  | start begins =>
      cases begins
      exact ⟨_, _, shadows_initial peers⟩
  | next _ stepped inductionHypothesis =>
      rcases inductionHypothesis with ⟨past, image, shadows⟩
      exact shadows.step stepped

end Shadowing
end Service
end RaftStore
