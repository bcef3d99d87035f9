import RaftStore.Sharding.Router

namespace RaftStore
namespace Sharding

/-!
# Rings whose members change

Shards are added to a ring and removed from it in any order, also a shard that is
there already and one that is not.  Adding a shard overwrites points and removing
one filters by the shard, so that a removal does not bring back a point which the
shard had taken from another one.

As long as no two shards meet at a position, a ring is determined by the shards on
it: a point belongs to a shard that is present and places a virtual node there.
-/

/-- A change of the members of a ring. -/
inductive Adjustment where
  | add (shardId : Nat)
  | remove (shardId : Nat)
  deriving DecidableEq, Repr

namespace Adjustment

/-- The shard that is added or removed. -/
def shardId : Adjustment -> Nat
  | .add shardId => shardId
  | .remove shardId => shardId

/-- The ring after the change. -/
def run (ring : HashRing) : Adjustment -> HashRing
  | .add shardId => ring.addShard shardId
  | .remove shardId => ring.removeShard shardId

/-- The shards that are present after the change, each of them once. -/
def note (present : List Nat) : Adjustment -> List Nat
  | .add shardId => if shardId ∈ present then present else present ++ [shardId]
  | .remove shardId => present.filter (fun other => other ≠ shardId)

end Adjustment

/-- The shards present after changes of a new ring. -/
def present (adjustments : List Adjustment) : List Nat :=
  adjustments.foldl Adjustment.note []

/-- No two of the shards have a virtual node at the same position. -/
def Apart (numVirtualNodes : Nat) (shards : List Nat) : Prop :=
  forall left, left ∈ shards -> forall right, right ∈ shards -> left ≠ right ->
    forall position, position ∈ (HashRing.new numVirtualNodes).positions left ->
      position ∉ (HashRing.new numVirtualNodes).positions right

instance (numVirtualNodes : Nat) (shards : List Nat) : Decidable (Apart numVirtualNodes shards) :=
  -- the positions of the list are checked, not all 64-bit words
  have _ (left right : Nat) : Decidable (forall position,
      position ∈ (HashRing.new numVirtualNodes).positions left ->
        position ∉ (HashRing.new numVirtualNodes).positions right) :=
    List.decidableBAll _ _
  inferInstanceAs (Decidable (forall left, left ∈ shards -> forall right, right ∈ shards ->
    left ≠ right -> forall position, position ∈ (HashRing.new numVirtualNodes).positions left ->
      position ∉ (HashRing.new numVirtualNodes).positions right))

/-! ## The points of the shards -/

/-- The points of the ring are those that the given shards place on it. -/
structure Consists (numVirtualNodes : Nat) (ring : HashRing) (shards : List Nat) : Prop where
  nodes : ring.numVirtualNodes = numVirtualNodes
  points : forall (position : UInt64) (shardId : Nat), ring.ring[position]? = some shardId <->
    shardId ∈ shards ∧ position ∈ (HashRing.new numVirtualNodes).positions shardId

section Consists

variable {numVirtualNodes : Nat} {ring : HashRing} {shards : List Nat}

theorem consists_new (numVirtualNodes : Nat) :
    Consists numVirtualNodes (HashRing.new numVirtualNodes) [] where
  nodes := rfl
  points position shardId := by
    constructor
    · intro impossible
      cases Std.ExtTreeMap.getElem?_empty.symm.trans impossible
    · rintro ⟨impossible, _⟩
      cases impossible

theorem Consists.positions_eq (consists : Consists numVirtualNodes ring shards) (shardId : Nat) :
    ring.positions shardId = (HashRing.new numVirtualNodes).positions shardId := by
  unfold HashRing.positions
  rw [consists.nodes]
  rfl

/-- Only the members of the list matter. -/
theorem Consists.congr (consists : Consists numVirtualNodes ring shards) {others : List Nat}
    (same : forall shardId, shardId ∈ others <-> shardId ∈ shards) :
    Consists numVirtualNodes ring others :=
  ⟨consists.nodes, fun position shardId => by rw [consists.points, same]⟩

/-- A shard that meets no other adds its own points. -/
theorem Consists.addShard (consists : Consists numVirtualNodes ring shards) {added : Nat}
    (apart : Apart numVirtualNodes (added :: shards)) :
    Consists numVirtualNodes (ring.addShard added) (added :: shards) where
  nodes := consists.nodes
  points position shardId := by
    rw [HashRing.getElem?_addShard, consists.positions_eq]
    by_cases own : position ∈ (HashRing.new numVirtualNodes).positions added
    · rw [if_pos own, Option.some.injEq]
      constructor
      · rintro rfl
        exact ⟨List.mem_cons_self, own⟩
      · rintro ⟨listed, place⟩
        by_contra different
        exact apart added List.mem_cons_self shardId listed different position own place
    · rw [if_neg own, consists.points]
      constructor
      · rintro ⟨listed, place⟩
        exact ⟨List.mem_cons_of_mem _ listed, place⟩
      · rintro ⟨listed, place⟩
        rcases List.mem_cons.mp listed with rfl | before
        · exact absurd place own
        · exact ⟨before, place⟩

theorem Consists.removeShard (consists : Consists numVirtualNodes ring shards) (removed : Nat) :
    Consists numVirtualNodes (ring.removeShard removed)
      (shards.filter (fun other => other ≠ removed)) where
  nodes := consists.nodes
  points position shardId := by
    rw [HashRing.getElem?_removeShard, consists.points, List.mem_filter, decide_eq_true_iff]
    exact and_right_comm

/-- The shards determine the points. -/
theorem Consists.ring_eq (consists : Consists numVirtualNodes ring shards) {other : HashRing}
    (same : Consists numVirtualNodes other shards) : ring = other := by
  have points : ring.ring = other.ring := by
    apply Std.ExtTreeMap.ext_getElem?
    intro position
    apply Option.ext
    intro shardId
    rw [consists.points, same.points]
  have nodes := consists.nodes.trans same.nodes.symm
  cases ring
  cases other
  cases points
  cases nodes
  rfl

end Consists

/-! ## Histories -/

section Histories

variable {numVirtualNodes : Nat}

theorem Apart.subset {shards others : List Nat} (apart : Apart numVirtualNodes shards)
    (inside : others ⊆ shards) : Apart numVirtualNodes others :=
  fun left first right second => apart left (inside first) right (inside second)

/-- The members after one change are the changed shard or were members before. -/
theorem Adjustment.mem_note {present : List Nat} {adjustment : Adjustment} {shardId : Nat}
    (listed : shardId ∈ adjustment.note present) :
    shardId = adjustment.shardId ∨ shardId ∈ present := by
  cases adjustment with
  | add added =>
      simp only [note] at listed
      split at listed
      · exact Or.inr listed
      · rcases List.mem_append.mp listed with before | new
        · exact Or.inr before
        · exact Or.inl (List.mem_singleton.mp new)
  | remove removed => exact Or.inr (List.mem_of_mem_filter listed)

/-- One change keeps the ring made of the members. -/
theorem Consists.run {ring : HashRing} {shards : List Nat}
    (consists : Consists numVirtualNodes ring shards) (adjustment : Adjustment)
    (apart : Apart numVirtualNodes (adjustment.shardId :: shards)) :
    Consists numVirtualNodes (adjustment.run ring) (adjustment.note shards) := by
  cases adjustment with
  | add added =>
      refine (consists.addShard apart).congr fun shardId => ?_
      simp only [Adjustment.note, Adjustment.shardId]
      split
      · next already =>
          rw [List.mem_cons]
          exact ⟨Or.inr, fun listed => listed.elim (fun same => same ▸ already) id⟩
      · rw [List.mem_append, List.mem_singleton, List.mem_cons, or_comm]
  | remove removed => exact consists.removeShard removed

/-- Changes of a ring, none of whose shards meet. -/
theorem Consists.foldl {ring : HashRing} {shards : List Nat}
    (consists : Consists numVirtualNodes ring shards) (adjustments : List Adjustment)
    (apart : Apart numVirtualNodes (shards ++ adjustments.map Adjustment.shardId)) :
    Consists numVirtualNodes (adjustments.foldl Adjustment.run ring)
      (adjustments.foldl Adjustment.note shards) := by
  induction adjustments generalizing ring shards with
  | nil => exact consists
  | cons adjustment rest inductionHypothesis =>
      have here : adjustment.shardId :: shards ⊆
          shards ++ (adjustment :: rest).map Adjustment.shardId := by
        intro shardId listed
        rcases List.mem_cons.mp listed with rfl | before
        · exact List.mem_append_right _ List.mem_cons_self
        · exact List.mem_append_left _ before
      refine inductionHypothesis (consists.run adjustment (apart.subset here)) (apart.subset ?_)
      intro shardId listed
      rcases List.mem_append.mp listed with noted | later
      · rcases Adjustment.mem_note noted with rfl | before
        · exact List.mem_append_right _ List.mem_cons_self
        · exact List.mem_append_left _ before
      · exact List.mem_append_right _ (List.mem_cons_of_mem _ later)

theorem mem_present {adjustments : List Adjustment} {shardId : Nat}
    (listed : shardId ∈ present adjustments) : shardId ∈ adjustments.map Adjustment.shardId := by
  have fold : forall (more : List Adjustment) (before : List Nat),
      shardId ∈ more.foldl Adjustment.note before ->
        shardId ∈ before ∨ shardId ∈ more.map Adjustment.shardId := by
    intro more
    induction more with
    | nil => exact fun _ among => Or.inl among
    | cons adjustment rest inductionHypothesis =>
        intro before among
        rcases inductionHypothesis _ among with noted | later
        · rcases Adjustment.mem_note noted with rfl | earlier
          · exact Or.inr List.mem_cons_self
          · exact Or.inl earlier
        · exact Or.inr (List.mem_cons_of_mem _ later)
  rcases fold adjustments [] listed with impossible | among
  · cases impossible
  · exact among

/-- Shards that do not meet, added one after the other. -/
theorem Consists.addShards {ring : HashRing} {shards : List Nat}
    (consists : Consists numVirtualNodes ring shards) (more : List Nat)
    (apart : Apart numVirtualNodes (shards ++ more)) :
    Consists numVirtualNodes (more.foldl HashRing.addShard ring) (shards ++ more) := by
  induction more generalizing ring shards with
  | nil =>
      rw [List.append_nil]
      exact consists
  | cons shardId rest inductionHypothesis =>
      have inside : shardId :: shards ⊆ shards ++ shardId :: rest := by
        intro other listed
        rcases List.mem_cons.mp listed with rfl | before
        · exact List.mem_append_right _ List.mem_cons_self
        · exact List.mem_append_left _ before
      have next : Consists numVirtualNodes (ring.addShard shardId) (shards ++ [shardId]) :=
        (consists.addShard (apart.subset inside)).congr fun other => by
          rw [List.mem_append, List.mem_singleton, List.mem_cons, or_comm]
      have later := inductionHypothesis next (by
        rw [List.append_assoc]
        exact apart)
      rw [List.append_assoc] at later
      exact later

/-- **The ring does not depend on its history.**  After any changes by shards that
do not meet, a ring is the one to which the shards that are present were added, each
once and in any order, and every key has the same shard on both. -/
theorem ring_of_present (numVirtualNodes : Nat) (adjustments : List Adjustment)
    (apart : Apart numVirtualNodes (adjustments.map Adjustment.shardId)) (order : List Nat)
    (members : order.Perm (present adjustments)) :
    (adjustments.foldl Adjustment.run (HashRing.new numVirtualNodes)).ring =
      (order.foldl HashRing.addShard (HashRing.new numVirtualNodes)).ring ∧
    forall key, (adjustments.foldl Adjustment.run (HashRing.new numVirtualNodes)).getShard key =
      (order.foldl HashRing.addShard (HashRing.new numVirtualNodes)).getShard key := by
  have changed : Consists numVirtualNodes
      (adjustments.foldl Adjustment.run (HashRing.new numVirtualNodes)) (present adjustments) :=
    (consists_new numVirtualNodes).foldl adjustments apart
  have built : Consists numVirtualNodes
      (order.foldl HashRing.addShard (HashRing.new numVirtualNodes)) ([] ++ order) :=
    (consists_new numVirtualNodes).addShards order
      (apart.subset fun shardId listed => mem_present (members.subset listed))
  have same := changed.ring_eq (built.congr fun shardId => members.symm.mem_iff)
  exact ⟨congrArg HashRing.ring same, fun key => by rw [same]⟩

/-- Shard 1 comes twice and goes, and a shard goes that was not there. -/
def replacement : List Adjustment :=
  [.add 1, .add 2, .add 3, .add 1, .remove 1, .remove 4, .add 2]

theorem ring_of_present_exchange :
    Apart 3 (replacement.map Adjustment.shardId) ∧ [3, 2].Perm (present replacement) ∧
    (replacement.foldl Adjustment.run (HashRing.new 3)).ring =
      ([3, 2].foldl HashRing.addShard (HashRing.new 3)).ring := by
  have apart : Apart 3 (replacement.map Adjustment.shardId) := by decide +kernel
  have members : [3, 2].Perm (present replacement) := by decide
  exact ⟨apart, members, (ring_of_present 3 replacement apart [3, 2] members).1⟩

end Histories
end Sharding
end RaftStore
