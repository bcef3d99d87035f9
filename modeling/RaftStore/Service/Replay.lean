import RaftStore.Service.Recovery

namespace RaftStore
namespace Service

open Raft Storage Collections

/-!
# Applying a log again and again

What a node has applied is not kept over a restart, but what the storage engine
holds is.  So in each lifetime the node applies its log from the first entry on,
over whatever the lifetimes before have left, and it may be stopped anywhere.
Old values are put back for a while.  Once a lifetime applies all commands, the
last command on each key has the last word, and all lifetimes before it are
forgotten: they have written to no key that this one does not write to.
-/

namespace ClusterNode

/-- Commit the first `count` entries of the log, and process what follows. -/
def applyUpTo (node : ClusterNode) (count : Nat) : ClusterNode :=
  let (raft, actions) := node.raft.applyCommittedEntries count
  { node with raft := raft }.processActions actions

end ClusterNode

/-- A node has come up on a working disk and is about to apply the first `count`
of the commands. -/
structure StartsOver (commands : List LogCommand) (count : Nat) (node : ClusterNode) : Prop where
  applied : node.raft.state.lastApplied = 0
  reliable : node.storage.Reliable
  reaches : count ≤ node.raft.state.log.body.length
  log : (node.raft.state.log.body.take count).map LogEntry.command = commands.take count

/-- A storage engine after some lifetimes, each of which has applied a first part of
the commands to what the one before had left. -/
inductive Replayed (commands : List LogCommand) : List Nat -> StorageEngine -> Prop
  | empty {storage : StorageEngine} : storage.get = (fun _ => none) -> Replayed commands [] storage
  | again {counts : List Nat} {storage : StorageEngine} {node : ClusterNode} {count : Nat} :
      Replayed commands counts storage -> count ≤ commands.length ->
      node.storage.get = storage.get -> StartsOver commands count node ->
      Replayed commands (counts ++ [count]) (node.applyUpTo count).storage

/-- What the first `count` commands write. -/
def prefixWrites (commands : List LogCommand) (count : Nat) : List (String × Option String) :=
  (commands.take count).filterMap writeOf

section Replay

variable {commands : List LogCommand} {counts : List Nat} {storage : StorageEngine}

/-- A lifetime writes what its part of the commands writes. -/
theorem StartsOver.get {count : Nat} {node : ClusterNode} (starting : StartsOver commands count node) :
    (node.applyUpTo count).storage.get =
      overwrite node.storage.get (prefixWrites commands count) := by
  have written : (commandsOf (node.raft.applyCommittedEntries count).2).filterMap writeOf =
      prefixWrites commands count := by
    rw [RaftNode.applyCommittedEntries_eq, starting.applied,
      RaftNode.filterMap_applications writeOf rfl node.raft starting.reaches, List.drop_zero,
      prefixWrites, ← starting.log, List.filterMap_map]
    rfl
  have shown := (applyCommands_reliable starting.reliable
    (commandsOf (node.raft.applyCommittedEntries count).2)).2
  rw [written] at shown
  rw [← shown, ClusterNode.applyUpTo]
  simp only [ClusterNode.processActions_eq]
  rfl

theorem StartsOver.reliable_after {count : Nat} {node : ClusterNode}
    (starting : StartsOver commands count node) : (node.applyUpTo count).storage.Reliable := by
  rw [ClusterNode.applyUpTo]
  simp only [ClusterNode.processActions_eq]
  exact (applyCommands_reliable starting.reliable _).1

/-- After some lifetimes the storage shows the writes of all of them, in order. -/
theorem Replayed.get (replayed : Replayed commands counts storage) :
    storage.get = overwrite (fun _ => none) (counts.flatMap (prefixWrites commands)) := by
  induction replayed with
  | empty nothing => rw [nothing]; rfl
  | again _ _ kept starting inductionHypothesis =>
      rw [starting.get, kept, inductionHypothesis, ← overwrite_append, List.flatMap_append]
      congr 2
      exact (List.append_nil _).symm

/-- No lifetime writes to a key that the whole list of commands does not write to. -/
theorem prefixWrites_subset (count : Nat) :
    prefixWrites commands count ⊆ prefixWrites commands commands.length := by
  have part : (commands.take count).Sublist (commands.take commands.length) := by
    rw [List.take_length]
    exact List.take_sublist count commands
  exact (part.filterMap writeOf).subset

/-- A node with the commands in its log that has just come up on a storage engine. -/
def nodeOn (commands : List LogCommand) (storage : StorageEngine) : ClusterNode :=
  .assemble (RaftNode.withPersistence 1 [1] .new
    (.ok (some ⟨1, none, sentinel :: commands.map (LogEntry.mk 1)⟩) : Except Unit _)) storage none 1

theorem startsOver_nodeOn (reliable : storage.Reliable) {count : Nat}
    (inside : count ≤ commands.length) : StartsOver commands count (nodeOn commands storage) where
  applied := rfl
  reliable := reliable
  reaches := by
    change count ≤ (commands.map (LogEntry.mk 1)).length
    rw [List.length_map]
    exact inside
  log := by
    change ((commands.map (LogEntry.mk 1)).take count).map LogEntry.command = commands.take count
    rw [← List.map_take, List.map_map]
    exact List.map_id _

/-- Any sequence of parts of the commands can be replayed. -/
theorem exists_replayed (commands : List LogCommand) {counts : List Nat}
    (inside : forall count, count ∈ counts -> count ≤ commands.length) :
    Exists fun storage => Replayed commands counts storage ∧ storage.Reliable := by
  induction counts using List.reverseRecOn with
  | nil => exact ⟨.empty, .empty StorageEngine.get_empty, fun _ listed => by cases listed⟩
  | append_singleton counts count inductionHypothesis =>
      rcases inductionHypothesis (fun other listed => inside other (List.mem_append_left _ listed))
        with ⟨storage, replayed, reliable⟩
      have bound := inside count (List.mem_append_right _ List.mem_cons_self)
      have starting := startsOver_nodeOn reliable bound
      exact ⟨_, .again replayed bound rfl starting, starting.reliable_after⟩

/-- **Replays converge.**  Whatever parts of the commands earlier lifetimes have
applied, after a lifetime that applies all of them the storage shows what one such
lifetime makes of an empty storage. -/
theorem replays_converge {once : StorageEngine}
    (many : Replayed commands (counts ++ [commands.length]) storage)
    (single : Replayed commands [commands.length] once) (key : String) :
    storage.get key = once.get key := by
  have covered : (counts.flatMap (prefixWrites commands)).map Prod.fst ⊆
      (prefixWrites commands commands.length).map Prod.fst := by
    apply List.map_subset
    intro write listed
    rcases List.mem_flatMap.mp listed with ⟨count, _, written⟩
    exact prefixWrites_subset count written
  rw [many.get, single.get, List.flatMap_append, overwrite_append]
  simp only [List.flatMap_cons, List.flatMap_nil, List.append_nil]
  rw [overwrite_overwrite _ covered]

/-- The key is deleted and written again, and an interrupted lifetime has put its
first value back. -/
theorem replays_converge_rewritten :
    Exists fun storage => Exists fun once =>
      Replayed [.put "k" "a", .delete "k", .put "k" "b"] ([3, 1, 2] ++ [3]) storage ∧
      Replayed [.put "k" "a", .delete "k", .put "k" "b"] [3] once ∧
      storage.get "k" = once.get "k" := by
  have many := exists_replayed [.put "k" "a", .delete "k", .put "k" "b"]
    (show forall count, count ∈ [3, 1, 2] ++ [3] -> count ≤ 3 by decide)
  have single := exists_replayed [.put "k" "a", .delete "k", .put "k" "b"]
    (show forall count, count ∈ [3] -> count ≤ 3 by decide)
  rcases many with ⟨storage, many, _⟩
  rcases single with ⟨once, single, _⟩
  exact ⟨storage, once, many, single, replays_converge many single "k"⟩

end Replay
end Service
end RaftStore
