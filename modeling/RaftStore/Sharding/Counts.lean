import RaftStore.Sharding.Membership
import RaftStore.Sharding.Tables
import Mathlib.Data.List.Destutter
import Mathlib.Data.List.Sort
import Mathlib.Data.List.Perm.Subperm

namespace RaftStore
namespace Sharding

/-!
# How many shards there are

Both tables of a router say which shards there are, and how many.  The ring lists the
shards that have points, and the router counts its configurations.  A shard that is
configured twice counts twice, and one whose points were all taken by others is not on
the ring.  Where the shards do not meet, the two tables name the same shards.
-/

namespace HashRing

/-- The shards with points, in order and without repetition.  Equal ids are neighbours
when they are dropped. -/
def shardIds (ring : HashRing) : List Nat :=
  let ids := (ring.ring.toList.map Prod.snd).mergeSort (fun left right => left ≤ right)
  ids.destutter (fun left right => left ≠ right)

/-- The number of shards with points. -/
def shardCount (ring : HashRing) : Nat := ring.shardIds.length

section Ids

variable {ring : HashRing} {shardId : Nat}

/-- In a sorted list all equal ids are neighbours. -/
theorem shardIds_eq_dedup (ring : HashRing) :
    ring.shardIds =
      ((ring.ring.toList.map Prod.snd).mergeSort (fun left right => left ≤ right)).dedup :=
  (List.pairwise_mergeSort' (fun left right : Nat => left ≤ right) _).destutter_eq_dedup

theorem mem_shardIds :
    shardId ∈ ring.shardIds <->
      Exists fun position : UInt64 => ring.ring[position]? = some shardId := by
  rw [shardIds_eq_dedup, List.mem_dedup, List.mem_mergeSort]
  constructor
  · intro listed
    rcases List.mem_map.mp listed with ⟨point, member, rfl⟩
    exact ⟨point.1, Std.ExtTreeMap.mem_toList_iff_getElem?_eq_some.mp member⟩
  · rintro ⟨position, stored⟩
    exact List.mem_map.mpr
      ⟨(position, shardId), Std.ExtTreeMap.mem_toList_iff_getElem?_eq_some.mpr stored, rfl⟩

theorem nodup_shardIds (ring : HashRing) : ring.shardIds.Nodup := by
  rw [shardIds_eq_dedup]
  exact List.nodup_dedup _

theorem ascending_shardIds (ring : HashRing) :
    ring.shardIds.Pairwise (fun left right => left < right) := by
  have sorted : ring.shardIds.Pairwise (fun left right => left ≤ right) :=
    (List.pairwise_mergeSort' (fun left right : Nat => left ≤ right) _).sublist
      (List.destutter_sublist _ _)
  exact (sorted.and ring.nodup_shardIds).imp fun both => Nat.lt_of_le_of_ne both.1 both.2

end Ids
end HashRing

/-- The shard that the change is about. -/
def Reconfiguration.shardId : Reconfiguration -> Nat
  | .add config => config.shardId
  | .remove shardId => shardId

namespace Router

/-- The configuration of a shard. -/
def getShard (router : Router) (shardId : Nat) : Option ShardConfig :=
  router.shards.find? (fun shard => shard.shardId = shardId)

/-- The number of configurations. -/
def shardCount (router : Router) : Nat := router.shards.length

/-- The shards of the configurations. -/
def configuredIds (router : Router) : List Nat := router.shards.map ShardConfig.shardId

/-- The ring names its shards in order, the router knows all of them, and these are the
shards that keys are given to.  Only when there are none is a key given to no shard. -/
structure Lists (router : Router) : Prop where
  ascending : router.ring.shardIds.Pairwise (fun left right => left < right)
  points : forall shardId, shardId ∈ router.ring.shardIds <-> ¬ router.Absent shardId
  known : forall shardId, shardId ∈ router.ring.shardIds ->
    Exists fun config => router.getShard shardId = some config ∧ config.shardId = shardId
  given : forall key shardId, router.getShardId key = some shardId ->
    shardId ∈ router.ring.shardIds
  lost : forall key, router.getShardId key = none <-> router.ring.shardIds = []
  routed : forall key, router.route key = (router.getShardId key).bind router.getShard
  counted : router.ring.shardCount ≤ router.shardCount

section Lists

variable {router : Router} {shardId : Nat}

theorem isSome_getShard :
    (router.getShard shardId).isSome <-> shardId ∈ router.configuredIds := by
  rw [getShard, List.find?_isSome, configuredIds, List.mem_map]
  constructor
  · rintro ⟨config, listed, same⟩
    exact ⟨config, listed, of_decide_eq_true same⟩
  · rintro ⟨config, listed, same⟩
    exact ⟨config, listed, decide_eq_true same⟩

theorem shardId_of_getShard {config : ShardConfig} (found : router.getShard shardId = some config) :
    config.shardId = shardId := by
  have same := List.find?_some found
  exact of_decide_eq_true same

/-- Each shard on the ring is configured. -/
theorem Configured.subset (configured : router.Configured) :
    router.ring.shardIds ⊆ router.configuredIds := by
  intro shardId listed
  rcases HashRing.mem_shardIds.mp listed with ⟨position, stored⟩
  rcases configured position shardId stored with ⟨config, member, rfl⟩
  exact List.mem_map_of_mem member

/-- A key is given to a shard on the ring. -/
theorem mem_shardIds_of_getShardId {key : String} (given : router.getShardId key = some shardId) :
    shardId ∈ router.ring.shardIds := by
  rcases HashRing.getShard_eq_some.mp given with ⟨position, stored, _⟩
  exact HashRing.mem_shardIds.mpr ⟨position, stored⟩

/-- A key is given to no shard exactly when the ring has none. -/
theorem getShardId_eq_none {key : String} :
    router.getShardId key = none <-> router.ring.shardIds = [] := by
  constructor
  · intro lost
    apply List.eq_nil_iff_forall_not_mem.mpr
    intro shardId listed
    rcases HashRing.mem_shardIds.mp listed with ⟨position, stored⟩
    rw [HashRing.getShard_eq_none.mp lost, Std.ExtTreeMap.getElem?_empty] at stored
    cases stored
  · intro empty
    cases given : router.getShardId key with
    | none => rfl
    | some shardId =>
        have listed := mem_shardIds_of_getShardId given
        rw [empty] at listed
        exact (List.not_mem_nil listed).elim

theorem Configured.lists (configured : router.Configured) : router.Lists where
  ascending := router.ring.ascending_shardIds
  points shardId := by
    rw [HashRing.mem_shardIds, Absent, not_forall_not]
  known shardId listed := by
    rcases Option.isSome_iff_exists.mp (isSome_getShard.mpr (configured.subset listed)) with
      ⟨config, found⟩
    exact ⟨config, found, shardId_of_getShard found⟩
  given _ _ := mem_shardIds_of_getShardId
  lost _ := getShardId_eq_none
  routed _ := rfl
  counted := by
    have among := List.subperm_of_subset router.ring.nodup_shardIds configured.subset
    have fewer := among.length_le
    rw [configuredIds, List.length_map] at fewer
    exact fewer

end Lists

/-- **A router knows its shards.**  After any changes, the ring lists the shards that
have points, each once; the router has a configuration of each of them, and routes a key
to the configuration of a shard on this list, unless the list is empty.  It never counts
fewer shards than the ring. -/
theorem members_known (shards : List ShardConfig) (virtualNodes : Nat)
    (changes : List Reconfiguration) :
    (changes.foldl Reconfiguration.run (new shards virtualNodes)).Lists :=
  ((configured_new shards virtualNodes).changes changes).lists

/-! ## Shards that do not meet -/

/-- The points of the ring are those that the configured shards place on it. -/
def Tallies (virtualNodes : Nat) (router : Router) : Prop :=
  Consists virtualNodes router.ring router.configuredIds

section Tallies

variable {router : Router} {virtualNodes : Nat} {shardId : Nat}

theorem tallies_new {shards : List ShardConfig}
    (apart : Apart virtualNodes (shards.map ShardConfig.shardId)) :
    Tallies virtualNodes (new shards virtualNodes) := by
  have added := (consists_new virtualNodes).addShards (shards.map ShardConfig.shardId) apart
  rw [List.nil_append, List.foldl_map] at added
  exact added

theorem Tallies.run (tallies : Tallies virtualNodes router) {change : Reconfiguration}
    (apart : Apart virtualNodes (change.shardId :: router.configuredIds)) :
    Tallies virtualNodes (change.run router) := by
  cases change with
  | add config =>
      apply (Consists.addShard tallies apart).congr
      intro shardId
      change shardId ∈ (router.shards ++ [config]).map ShardConfig.shardId <-> _
      rw [List.map_append, List.mem_append, List.map_singleton, List.mem_singleton, or_comm]
      exact List.mem_cons.symm
  | remove removed =>
      apply (Consists.removeShard tallies removed).congr
      intro shardId
      unfold configuredIds
      rw [List.filter_map]
      rfl

/-- A change configures no shard but its own. -/
theorem configuredIds_run (router : Router) (change : Reconfiguration) :
    (change.run router).configuredIds ⊆ change.shardId :: router.configuredIds := by
  cases change with
  | add config =>
      intro shardId listed
      rcases List.mem_map.mp listed with ⟨other, member, rfl⟩
      rcases List.mem_append.mp member with before | own
      · exact List.mem_cons_of_mem _ (List.mem_map_of_mem before)
      · rw [List.mem_singleton.mp own]
        exact List.mem_cons_self
  | remove removed =>
      intro shardId listed
      rcases List.mem_map.mp listed with ⟨other, member, rfl⟩
      exact List.mem_cons_of_mem _ (List.mem_map_of_mem (List.mem_of_mem_filter member))

theorem Tallies.changes (tallies : Tallies virtualNodes router) (changes : List Reconfiguration)
    (apart : Apart virtualNodes (router.configuredIds ++ changes.map Reconfiguration.shardId)) :
    Tallies virtualNodes (changes.foldl Reconfiguration.run router) := by
  induction changes generalizing router with
  | nil => exact tallies
  | cons change rest inductionHypothesis =>
      have first : change.shardId :: router.configuredIds ⊆
          router.configuredIds ++ (change :: rest).map Reconfiguration.shardId := by
        apply List.cons_subset.mpr
        exact ⟨List.mem_append_right _ List.mem_cons_self, List.subset_append_left _ _⟩
      apply inductionHypothesis (tallies.run (apart.subset first))
      apply apart.subset
      apply List.append_subset.mpr
      constructor
      · exact List.Subset.trans (configuredIds_run router change) first
      · exact fun _ listed => List.mem_append_right _ (List.mem_cons_of_mem _ listed)

/-- Every shard that places points and does not meet others is on the ring. -/
theorem Tallies.mem_shardIds (tallies : Tallies virtualNodes router) (positive : 0 < virtualNodes) :
    shardId ∈ router.ring.shardIds <-> shardId ∈ router.configuredIds := by
  rw [HashRing.mem_shardIds]
  constructor
  · rintro ⟨position, stored⟩
    exact ((tallies.points position shardId).mp stored).1
  · intro listed
    have first : HashRing.hash (HashRing.virtualNode shardId 0) ∈
        (HashRing.new virtualNodes).positions shardId :=
      List.mem_map.mpr ⟨0, List.mem_range.mpr positive, rfl⟩
    exact ⟨_, (tallies.points _ shardId).mpr ⟨listed, first⟩⟩

/-- The ring counts every configured shard once. -/
theorem Tallies.shardCount_eq (tallies : Tallies virtualNodes router) (positive : 0 < virtualNodes) :
    router.ring.shardCount = router.configuredIds.dedup.length := by
  have same : router.ring.shardIds.Perm router.configuredIds.dedup := by
    rw [List.perm_ext_iff_of_nodup router.ring.nodup_shardIds (List.nodup_dedup _)]
    intro shardId
    rw [tallies.mem_shardIds positive, List.mem_dedup]
  exact same.length_eq

end Tallies

/-- **The tables name the same shards.**  After any changes by shards that do not meet,
the ring lists exactly the shards that have a configuration, and it counts as many as the
router unless one of them is configured more than once. -/
theorem counts_agree (shards : List ShardConfig) {virtualNodes : Nat} (positive : 0 < virtualNodes)
    (changes : List Reconfiguration)
    (apart : Apart virtualNodes
      (shards.map ShardConfig.shardId ++ changes.map Reconfiguration.shardId)) :
    let router := changes.foldl Reconfiguration.run (new shards virtualNodes)
    (forall shardId, shardId ∈ router.ring.shardIds <-> (router.getShard shardId).isSome) ∧
    (router.ring.shardCount = router.shardCount <-> router.configuredIds.Nodup) := by
  intro router
  have tallies : Tallies virtualNodes router :=
    (tallies_new (apart.subset (List.subset_append_left _ _))).changes changes apart
  constructor
  · intro shardId
    rw [tallies.mem_shardIds positive, isSome_getShard]
  · have size : router.shardCount = router.configuredIds.length := (List.length_map _).symm
    rw [tallies.shardCount_eq positive, size]
    constructor
    · intro all
      rw [← List.dedup_eq_self]
      exact (List.dedup_sublist _).eq_of_length all
    · intro once
      rw [List.dedup_eq_self.mpr once]

set_option maxRecDepth 100000 in
/-- Shard 1 is configured twice, so that the router counts three of two shards. -/
theorem counts_agree_twice :
    let shards : List ShardConfig := [⟨1, [1], none⟩, ⟨2, [2], none⟩, ⟨3, [3], none⟩]
    let changes : List Reconfiguration := [.add ⟨1, [4], none⟩, .remove 3, .remove 5]
    let router := changes.foldl Reconfiguration.run (new shards 2)
    (forall shardId, shardId ∈ router.ring.shardIds <-> (router.getShard shardId).isSome) ∧
    router.ring.shardCount ≠ router.shardCount := by
  intro shards changes router
  have apart : Apart 2
      (shards.map ShardConfig.shardId ++ changes.map Reconfiguration.shardId) := by
    decide +kernel
  have agree := counts_agree shards Nat.two_pos changes apart
  have twice : ¬ router.configuredIds.Nodup := by decide +kernel
  exact ⟨agree.1, fun same => twice (agree.2.mp same)⟩

end Router
end Sharding
end RaftStore
