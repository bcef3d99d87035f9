import RaftStore.Sharding.Nearest

namespace RaftStore
namespace Sharding

/-!
# The two tables of a router

A router keeps its members twice: as points on the ring and as a list of
configurations.  The two are updated apart, and they need not have the same size: a
shard may be configured several times, or have lost all its points to others.  What
matters is that each shard with a point has a configuration.
-/

/-- A change of the members of a router. -/
inductive Reconfiguration where
  | add (config : ShardConfig)
  | remove (shardId : Nat)
  deriving DecidableEq, Repr

/-- The router after the change. -/
def Reconfiguration.run (router : Router) : Reconfiguration -> Router
  | .add config => router.addShard config
  | .remove shardId => router.removeShard shardId

namespace Router

/-- Each shard with a point has a configuration. -/
def Configured (router : Router) : Prop :=
  forall (position : UInt64) (shardId : Nat), router.ring.ring[position]? = some shardId ->
    Exists fun config => config ∈ router.shards ∧ config.shardId = shardId

/-- The shard has no point. -/
def Absent (router : Router) (shardId : Nat) : Prop :=
  forall position : UInt64, router.ring.ring[position]? ≠ some shardId

section Changes

variable {router : Router}

theorem configured_new (shards : List ShardConfig) (virtualNodes : Nat) :
    (new shards virtualNodes).Configured := by
  have fold : forall (more : List ShardConfig) (ring : HashRing),
      (forall (position : UInt64) (shardId : Nat), ring.ring[position]? = some shardId ->
        Exists fun config => config ∈ shards ∧ config.shardId = shardId) -> more ⊆ shards ->
      forall (position : UInt64) (shardId : Nat),
        (more.foldl (fun ring shard => ring.addShard shard.shardId) ring).ring[position]? =
          some shardId -> Exists fun config => config ∈ shards ∧ config.shardId = shardId := by
    intro more
    induction more with
    | nil => exact fun ring known _ => known
    | cons shard rest inductionHypothesis =>
        intro ring known inside
        apply inductionHypothesis (ring.addShard shard.shardId)
        · intro position shardId stored
          rcases HashRing.own_or_earlier stored with rfl | earlier
          · exact ⟨shard, inside List.mem_cons_self, rfl⟩
          · exact known position shardId earlier
        · exact fun other listed => inside (List.mem_cons_of_mem _ listed)
  apply fold shards (.new virtualNodes)
  · intro position shardId impossible
    cases Std.ExtTreeMap.getElem?_empty.symm.trans impossible
  · exact fun _ listed => listed

theorem Configured.addShard (configured : router.Configured) (config : ShardConfig) :
    (router.addShard config).Configured := by
  intro position shardId stored
  rcases HashRing.own_or_earlier stored with rfl | earlier
  · exact ⟨config, List.mem_append_right _ List.mem_cons_self, rfl⟩
  · rcases configured position shardId earlier with ⟨other, listed, same⟩
    exact ⟨other, List.mem_append_left _ listed, same⟩

/-- A shard that keeps its points keeps its configurations. -/
theorem Configured.removeShard (configured : router.Configured) (removed : Nat) :
    (router.removeShard removed).Configured := by
  intro position shardId stored
  have kept := (HashRing.getElem?_removeShard router.ring removed position shardId).mp stored
  rcases configured position shardId kept.1 with ⟨config, listed, rfl⟩
  exact ⟨config, List.mem_filter.mpr ⟨listed, decide_eq_true kept.2⟩, rfl⟩

theorem Configured.run (configured : router.Configured) (change : Reconfiguration) :
    (change.run router).Configured := by
  cases change with
  | add config => exact configured.addShard config
  | remove shardId => exact configured.removeShard shardId

/-- Any changes keep the tables consistent. -/
theorem Configured.changes (configured : router.Configured) (changes : List Reconfiguration) :
    (changes.foldl Reconfiguration.run router).Configured :=
  List.foldlRecOn changes Reconfiguration.run configured fun _ held change _ => held.run change

theorem absent_removeShard (router : Router) (removed : Nat) :
    (router.removeShard removed).Absent removed := by
  intro position stored
  exact ((HashRing.getElem?_removeShard router.ring removed position removed).mp stored).2 rfl

/-- Only its own addition brings a shard back. -/
theorem Absent.run {absent : Nat} (gone : router.Absent absent) {change : Reconfiguration}
    (other : forall config, change = .add config -> config.shardId ≠ absent) :
    (change.run router).Absent absent := by
  intro position stored
  cases change with
  | add config =>
      rcases HashRing.own_or_earlier stored with same | earlier
      · exact other config rfl same.symm
      · exact gone position earlier
  | remove shardId =>
      have kept := (HashRing.getElem?_removeShard router.ring shardId position absent).mp stored
      exact gone position kept.1

theorem Absent.changes {absent : Nat} (gone : router.Absent absent) {changes : List Reconfiguration}
    (others : forall config, .add config ∈ changes -> config.shardId ≠ absent) :
    (changes.foldl Reconfiguration.run router).Absent absent := by
  refine List.foldlRecOn (motive := fun later => later.Absent absent) changes Reconfiguration.run
    gone ?_
  intro before held change listed
  apply held.run
  rintro config rfl
  exact others config listed

end Changes

section Lookups

variable {router : Router} {key : String}

/-- On consistent tables, a key that has a shard is routed to a configuration of it. -/
theorem Configured.route (configured : router.Configured) {shardId : Nat}
    (given : router.getShardId key = some shardId) :
    Exists fun config => router.route key = some config ∧ config ∈ router.shards ∧
      config.shardId = shardId := by
  rcases HashRing.getShard_eq_some.mp given with ⟨position, stored, _⟩
  rcases configured position shardId stored with ⟨known, listed, same⟩
  cases found : router.shards.find? (fun shard => shard.shardId = shardId) with
  | none =>
      have missing := List.find?_eq_none.mp found known listed
      exact absurd (decide_eq_true same) missing
  | some config =>
      refine ⟨config, ?_, List.mem_of_find?_eq_some found, ?_⟩
      · unfold getShardId at given
        unfold Router.route
        rw [given]
        exact found
      · have owner := List.find?_some found
        exact of_decide_eq_true owner

/-- A key that has no shard is not routed. -/
theorem route_eq_none (missing : router.getShardId key = none) : router.route key = none := by
  unfold getShardId at missing
  unfold Router.route
  rw [missing]
  rfl

theorem Absent.getShardId {absent : Nat} (gone : router.Absent absent) (key : String) :
    router.getShardId key ≠ some absent := by
  intro given
  rcases HashRing.getShard_eq_some.mp given with ⟨position, stored, _⟩
  exact gone position stored

end Lookups

/-- **The tables agree.**  After any changes of a router, a key is routed exactly if
it has a shard, then to a configuration of this shard from the list, and it belongs
to this shard only.  A shard that was removed gets no key until it is added again. -/
theorem tables_agree (shards : List ShardConfig) (virtualNodes : Nat)
    (changes : List Reconfiguration) :
    let router := changes.foldl Reconfiguration.run (new shards virtualNodes)
    (forall key, (Exists fun config => router.route key = some config) <->
      Exists fun shardId => router.getShardId key = some shardId) ∧
    (forall key config shardId, router.route key = some config ->
      router.getShardId key = some shardId -> config.shardId = shardId ∧ config ∈ router.shards ∧
        forall other, router.keyBelongsToShard key other = true <-> other = shardId) ∧
    forall (removed : Nat) (later : List Reconfiguration),
      (forall config, .add config ∈ later -> config.shardId ≠ removed) ->
      forall key, (later.foldl Reconfiguration.run (router.removeShard removed)).getShardId key ≠
          some removed ∧
        forall config, (later.foldl Reconfiguration.run (router.removeShard removed)).route key =
          some config -> config.shardId ≠ removed := by
  intro router
  have configured : router.Configured := (configured_new shards virtualNodes).changes changes
  refine ⟨fun key => ⟨?_, ?_⟩, ?_, ?_⟩
  · rintro ⟨config, routed⟩
    cases given : router.getShardId key with
    | none =>
        rw [route_eq_none given] at routed
        cases routed
    | some shardId => exact ⟨shardId, rfl⟩
  · rintro ⟨shardId, given⟩
    rcases configured.route given with ⟨config, routed, _⟩
    exact ⟨config, routed⟩
  · intro key config shardId routed given
    rcases configured.route given with ⟨found, same, listed, owner⟩
    cases same.symm.trans routed
    exact ⟨owner, listed, keyBelongsToShard_iff given⟩
  · intro removed later others key
    have gone := (absent_removeShard router removed).changes others
    refine ⟨gone.getShardId key, fun config routed same => ?_⟩
    have kept := (configured.removeShard removed).changes later
    cases given : (later.foldl Reconfiguration.run (router.removeShard removed)).getShardId key with
    | none =>
        rw [route_eq_none given] at routed
        cases routed
    | some shardId =>
        rcases kept.route given with ⟨found, equal, _, owner⟩
        cases equal.symm.trans routed
        rw [owner] at same
        exact gone.getShardId key (by rw [given, same])

set_option maxRecDepth 100000 in
/-- Shard 1 is configured twice, shard 2 comes and goes, and shard 3 comes later. -/
theorem tables_agree_replaced :
    let shards : List ShardConfig := [⟨1, [1], none⟩, ⟨1, [2], some 7001⟩]
    let changes : List Reconfiguration := [.add ⟨2, [3], none⟩]
    let router := changes.foldl Reconfiguration.run (new shards 2)
    let later : List Reconfiguration := [.remove 5, .add ⟨3, [4], none⟩]
    router.getShardId "k" = some 2 ∧
    (forall other, router.keyBelongsToShard "k" other = true <-> other = 2) ∧
    (later.foldl Reconfiguration.run (router.removeShard 2)).getShardId "k" ≠ some 2 := by
  intro shards changes router later
  have agree := tables_agree shards 2 changes
  have given : router.getShardId "k" = some 2 := by decide +kernel
  rcases (agree.1 "k").mpr ⟨2, given⟩ with ⟨config, routed⟩
  refine ⟨given, (agree.2.1 "k" config 2 routed given).2.2, ?_⟩
  refine (agree.2.2 2 later ?_ "k").1
  intro config listed
  rcases List.mem_cons.mp listed with impossible | among
  · cases impossible
  · cases List.mem_singleton.mp among
    decide

end Router
end Sharding
end RaftStore
