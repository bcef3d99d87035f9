import Mathlib.Data.Finset.Card

namespace RaftStore
namespace Sharding

/-!
# Routing keys to shards

This file embeds `sharding/ring.rs` and `sharding/router.rs`: the ring with its
virtual nodes, and the router that keeps a ring beside the configurations of the
shards.  The sorted map of the source is a `Std.ExtTreeMap`.
-/

/-- A consistent hashing ring with virtual nodes. -/
structure HashRing where
  ring : Std.ExtTreeMap UInt64 Nat
  numVirtualNodes : Nat

namespace HashRing

/-- An empty ring. -/
def new (numVirtualNodes : Nat) : HashRing := ⟨∅, numVirtualNodes⟩

/-- FNV-1a over the bytes of a text, then a finalizer that mixes the bits. -/
def hash (key : String) : UInt64 :=
  let hash := key.toByteArray.data.foldl
    (fun (hash : UInt64) byte => (hash ^^^ byte.toUInt64) * 0x100000001b3) 0xcbf29ce484222325
  let hash := (hash ^^^ (hash >>> 33)) * 0xff51afd7ed558ccd
  let hash := (hash ^^^ (hash >>> 33)) * 0xc4ceb9fe1a85ec53
  hash ^^^ (hash >>> 33)

/-- The text whose hash places a virtual node. -/
def virtualNode (shardId index : Nat) : String :=
  "shard-" ++ toString shardId ++ "-vnode-" ++ toString index

/-- Place the virtual nodes of a shard, which displace others at their positions. -/
def addShard (ring : HashRing) (shardId : Nat) : HashRing :=
  let points := (List.range ring.numVirtualNodes).foldl
    (fun points index => points.insert (hash (virtualNode shardId index)) shardId) ring.ring
  { ring with ring := points }

/-- Take all points of a shard off the ring. -/
def removeShard (ring : HashRing) (shardId : Nat) : HashRing :=
  { ring with ring := ring.ring.filter (fun _ id => id ≠ shardId) }

/-- The shard at the first position from the hash of the key on, or at the first
position of all if there is none. -/
def getShard (ring : HashRing) (key : String) : Option Nat :=
  if ring.ring.isEmpty then none
  else
    match ring.ring.toList.find? (fun point => hash key ≤ point.1) with
    | some point => some point.2
    | none => ring.ring.toList.head?.map Prod.snd

/-! ### Points -/

/-- The ring has points, and they are all of these shards. -/
structure Covers (ring : HashRing) (shards : List Nat) : Prop where
  points : ring.ring ≠ ∅
  within : forall (position : UInt64) (shardId : Nat),
    ring.ring[position]? = some shardId -> shardId ∈ shards

/-- Where the virtual nodes of a shard stand on the ring. -/
def positions (ring : HashRing) (shardId : Nat) : List UInt64 :=
  (List.range ring.numVirtualNodes).map fun index => hash (virtualNode shardId index)

/-- Adding a shard takes its positions and leaves the other points alone. -/
theorem getElem?_addShard (ring : HashRing) (added : Nat) (position : UInt64) :
    (ring.addShard added).ring[position]? =
      if position ∈ ring.positions added then some added else ring.ring[position]? := by
  have fold : forall (indices : List Nat) (points : Std.ExtTreeMap UInt64 Nat),
      (indices.foldl (fun points index => points.insert (hash (virtualNode added index)) added)
        points)[position]? =
          if position ∈ indices.map (fun index => hash (virtualNode added index)) then some added
          else points[position]? := by
    intro indices
    induction indices with
    | nil => exact fun _ => rfl
    | cons index rest inductionHypothesis =>
        intro points
        rw [List.foldl_cons, inductionHypothesis, Std.ExtTreeMap.getElem?_insert, List.map_cons]
        by_cases later : position ∈ rest.map (fun index => hash (virtualNode added index))
        · rw [if_pos later, if_pos (List.mem_cons_of_mem _ later)]
        · rw [if_neg later]
          by_cases here : hash (virtualNode added index) = position
          · rw [if_pos (Std.compare_eq_iff_eq.mpr here), if_pos (by rw [here]; exact List.mem_cons_self)]
          · rw [if_neg (fun same => here (Std.compare_eq_iff_eq.mp same)), if_neg]
            intro listed
            rcases List.mem_cons.mp listed with same | behind
            · exact here same.symm
            · exact later behind
  exact fold _ _

/-- The points after a shard was added are its own or were there before. -/
theorem own_or_earlier {ring : HashRing} {added shardId : Nat} {position : UInt64}
    (point : (ring.addShard added).ring[position]? = some shardId) :
    shardId = added ∨ ring.ring[position]? = some shardId := by
  rw [getElem?_addShard] at point
  split at point
  · exact Or.inl (Option.some.inj point).symm
  · exact Or.inr point

/-- Removing a shard leaves the points of the others. -/
theorem getElem?_removeShard (ring : HashRing) (removed : Nat) (position : UInt64)
    (shardId : Nat) :
    (ring.removeShard removed).ring[position]? = some shardId <->
      ring.ring[position]? = some shardId ∧ shardId ≠ removed := by
  unfold removeShard
  rw [Std.ExtTreeMap.getElem?_filter', Option.filter_eq_some_iff, decide_eq_true_iff]

/-- A ring with virtual nodes has points once a shard was added. -/
theorem addShard_ne_empty {ring : HashRing} (positive : 0 < ring.numVirtualNodes) (added : Nat) :
    (ring.addShard added).ring ≠ ∅ := by
  have fold : forall (indices : List Nat) (points : Std.ExtTreeMap UInt64 Nat), points ≠ ∅ ->
      indices.foldl (fun points index => points.insert (hash (virtualNode added index)) added)
        points ≠ ∅ := by
    intro indices
    induction indices with
    | nil => exact fun _ kept => kept
    | cons index rest inductionHypothesis =>
        exact fun points _ => inductionHypothesis _ Std.ExtTreeMap.insert_ne_empty
  unfold addShard
  rcases Nat.exists_eq_succ_of_ne_zero (Nat.ne_of_gt positive) with ⟨count, nodes⟩
  rw [nodes, List.range_succ_eq_map, List.foldl_cons]
  exact fold _ _ Std.ExtTreeMap.insert_ne_empty

theorem Covers.addShard {ring : HashRing} {shards : List Nat} (covers : ring.Covers shards)
    (positive : 0 < ring.numVirtualNodes) (added : Nat) :
    (ring.addShard added).Covers (shards ++ [added]) := by
  refine ⟨addShard_ne_empty positive added, fun position shardId point => ?_⟩
  rcases own_or_earlier point with rfl | earlier
  · exact List.mem_append_right _ List.mem_cons_self
  · exact List.mem_append_left _ (covers.within position shardId earlier)

/-- Every key has a shard on a ring with points. -/
theorem Covers.getShard {ring : HashRing} {shards : List Nat} (covers : ring.Covers shards)
    (key : String) : Exists fun shardId => shardId ∈ shards ∧ ring.getShard key = some shardId := by
  have listed : forall point, point ∈ ring.ring.toList -> point.2 ∈ shards :=
    fun point among => covers.within point.1 point.2
      (Std.ExtTreeMap.mem_toList_iff_getElem?_eq_some.mp among)
  have filled : ring.ring.isEmpty = false := by
    cases empty : ring.ring.isEmpty with
    | false => rfl
    | true => exact absurd (Std.ExtTreeMap.isEmpty_iff.mp empty) covers.points
  unfold HashRing.getShard
  rw [filled]
  cases found : ring.ring.toList.find? (fun point => hash key ≤ point.1) with
  | some point => exact ⟨point.2, listed point (List.mem_of_find?_eq_some found), rfl⟩
  | none =>
      cases all : ring.ring.toList with
      | nil => exact absurd (Std.ExtTreeMap.toList_eq_nil_iff.mp all) covers.points
      | cons point rest =>
          exact ⟨point.2, listed point (by rw [all]; exact List.mem_cons_self), rfl⟩

end HashRing

/-- The configuration of a shard: its nodes, and the client port of its leader if it
is known. -/
structure ShardConfig where
  shardId : Nat
  nodeIds : List Nat
  leaderPort : Option UInt16
  deriving DecidableEq, Repr

/-- The request router. -/
structure Router where
  ring : HashRing
  shards : List ShardConfig

namespace Router

/-- A router for the given shards. -/
def new (shards : List ShardConfig) (virtualNodes : Nat) : Router where
  ring := shards.foldl (fun ring shard => ring.addShard shard.shardId) (.new virtualNodes)
  shards := shards

/-- The configuration of the shard of a key. -/
def route (router : Router) (key : String) : Option ShardConfig := do
  let shardId <- router.ring.getShard key
  router.shards.find? (fun shard => shard.shardId = shardId)

/-- The shard of a key. -/
def getShardId (router : Router) (key : String) : Option Nat := router.ring.getShard key

/-- A key belongs to a shard. -/
def keyBelongsToShard (router : Router) (key : String) (shardId : Nat) : Bool :=
  match router.ring.getShard key with
  | some id => id = shardId
  | none => false

/-- Put a shard on the ring and its configuration behind the others. -/
def addShard (router : Router) (config : ShardConfig) : Router where
  ring := router.ring.addShard config.shardId
  shards := router.shards ++ [config]

/-- Take a shard off the ring, and all its configurations. -/
def removeShard (router : Router) (shardId : Nat) : Router where
  ring := router.ring.removeShard shardId
  shards := router.shards.filter (fun shard => shard.shardId ≠ shardId)

/-- A router of some shards gives every key to one of them. -/
theorem getShardId_new {shards : List ShardConfig} (nonempty : shards ≠ []) {virtualNodes : Nat}
    (positive : 0 < virtualNodes) (key : String) :
    Exists fun shardId => shardId ∈ shards.map ShardConfig.shardId ∧
      (new shards virtualNodes).getShardId key = some shardId := by
  have fold : forall (more : List ShardConfig) (ring : HashRing) (before : List Nat),
      ring.numVirtualNodes = virtualNodes -> ring.Covers before ->
      (more.foldl (fun ring shard => ring.addShard shard.shardId) ring).Covers
        (before ++ more.map ShardConfig.shardId) := by
    intro more
    induction more with
    | nil =>
        intro ring before _ covers
        rw [List.map_nil, List.append_nil]
        exact covers
    | cons shard rest inductionHypothesis =>
        intro ring before nodes covers
        have later := inductionHypothesis (ring.addShard shard.shardId) _ nodes
          (covers.addShard (by rw [nodes]; exact positive) shard.shardId)
        rw [List.append_assoc] at later
        exact later
  cases shards with
  | nil => exact absurd rfl nonempty
  | cons shard rest =>
      have first : ((HashRing.new virtualNodes).addShard shard.shardId).Covers [shard.shardId] := by
        refine ⟨HashRing.addShard_ne_empty positive _, fun position shardId point => ?_⟩
        rcases HashRing.own_or_earlier point with rfl | impossible
        · exact List.mem_cons_self
        · cases Std.ExtTreeMap.getElem?_empty.symm.trans impossible
      exact (fold rest _ _ rfl first).getShard key

/-- A key belongs to the shard it is given to and to no other. -/
theorem keyBelongsToShard_iff {router : Router} {key : String} {owner : Nat}
    (given : router.getShardId key = some owner) (shardId : Nat) :
    router.keyBelongsToShard key shardId = true <-> shardId = owner := by
  unfold getShardId at given
  unfold keyBelongsToShard
  rw [given]
  exact decide_eq_true_iff.trans eq_comm

end Router
end Sharding
end RaftStore
