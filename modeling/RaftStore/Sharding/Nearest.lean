import RaftStore.Sharding.Router
import Mathlib.Algebra.Ring.Int.Defs
import Mathlib.Data.List.Basic

namespace RaftStore
namespace Sharding
namespace HashRing

/-!
# The nearest point

A lookup takes the first point from the hash of the key on, and the first point of
all if there is none.  Walking upwards from the hash and around at the end, this is
the point that is met first: the one with the least distance modulo `2 ^ 64`.

From this description follows what a change of the ring does to the keys.  A new
shard takes keys from the others and gives none to them, and the keys of a shard
that goes are the only ones that move.
-/

/-- How far one has to walk from a place to a position, upwards and around. -/
def distance (place position : UInt64) : Int :=
  ((position.toNat : Int) - (place.toNat : Int)) % 2 ^ 64

/-- The point of the ring that is met first from a place on. -/
structure Nearest (ring : HashRing) (place position : UInt64) : Prop where
  point : position ∈ ring.ring
  least : forall other, other ∈ ring.ring -> distance place position ≤ distance place other

/-! ## Distances -/

section Distances

variable {place position other : UInt64}

theorem distance_of_le (above : place ≤ position) :
    distance place position = (position.toNat : Int) - place.toNat := by
  have order := UInt64.le_iff_toNat_le.mp above
  have bound := position.toNat_lt
  unfold distance
  omega

theorem distance_of_lt (below : position < place) :
    distance place position = (position.toNat : Int) - place.toNat + 2 ^ 64 := by
  have order := UInt64.lt_iff_toNat_lt.mp below
  have bound := place.toNat_lt
  unfold distance
  omega

theorem distance_injective (place : UInt64) : Function.Injective (distance place) := by
  intro position other same
  have first := position.toNat_lt
  have second := other.toNat_lt
  apply UInt64.toNat_inj.mp
  unfold distance at same
  omega

end Distances

/-! ## Lookups -/

section Lookups

variable {ring : HashRing} {place : UInt64} {key : String} {shardId : Nat}

/-- The points of a ring come in ascending order. -/
theorem ascending (ring : HashRing) :
    ring.ring.toList.Pairwise (fun left right => left.1 < right.1) := by
  apply ring.ring.ordered_keys_toList.imp
  intro left right before
  exact Std.compare_eq_lt.mp before

/-- The first point from a place on is the nearest one: the points before it are
below the place and come last on the way around. -/
theorem least_of_find {points : List (UInt64 × Nat)} {point : UInt64 × Nat}
    (sorted : points.Pairwise (fun left right => left.1 < right.1))
    (found : points.find? (fun point => place ≤ point.1) = some point)
    {other : UInt64 × Nat} (listed : other ∈ points) :
    distance place point.1 ≤ distance place other.1 := by
  rcases List.find?_eq_some_iff_append.mp found with ⟨above, before, behind, rfl, passed⟩
  have above : place ≤ point.1 := of_decide_eq_true above
  have bound := point.1.toNat_lt
  rw [distance_of_le above]
  rcases List.mem_append.mp listed with earlier | rest
  · have refused := passed other earlier
    have below : other.1 < place := by simpa using refused
    rw [distance_of_lt below]
    omega
  · have later : point.1 ≤ other.1 := by
      rcases List.mem_cons.mp rest with rfl | tail
      · exact UInt64.le_refl _
      · have ordered := (List.pairwise_append.mp sorted).2.1
        exact UInt64.le_of_lt (List.rel_of_pairwise_cons ordered tail)
    have order := UInt64.le_iff_toNat_le.mp later
    rw [distance_of_le (UInt64.le_trans above later)]
    omega

/-- If all points are below a place, the first of all is the nearest one. -/
theorem least_of_head {points : List (UInt64 × Nat)} {point : UInt64 × Nat}
    (sorted : points.Pairwise (fun left right => left.1 < right.1))
    (missing : points.find? (fun point => place ≤ point.1) = none)
    (first : points.head? = some point) {other : UInt64 × Nat} (listed : other ∈ points) :
    distance place point.1 ≤ distance place other.1 := by
  have below : forall candidate, candidate ∈ points -> candidate.1 < place := by
    intro candidate among
    have refused := List.find?_eq_none.mp missing candidate among
    simpa using refused
  rcases List.head?_eq_some_iff.mp first with ⟨rest, rfl⟩
  rw [distance_of_lt (below point List.mem_cons_self), distance_of_lt (below other listed)]
  rcases List.mem_cons.mp listed with rfl | behind
  · exact Int.le_refl _
  · have order := UInt64.lt_iff_toNat_lt.mp (List.rel_of_pairwise_cons sorted behind)
    omega

/-- A lookup on a ring with points finds the nearest one. -/
theorem exists_nearest (filled : ring.ring ≠ ∅) (key : String) :
    Exists fun position => Nearest ring (hash key) position ∧
      ring.getShard key = ring.ring[position]? := by
  have points : forall point : UInt64 × Nat, point ∈ ring.ring.toList ->
      (forall other, other ∈ ring.ring.toList ->
        distance (hash key) point.1 ≤ distance (hash key) other.1) ->
      ring.getShard key = some point.2 ->
      Exists fun position => Nearest ring (hash key) position ∧
        ring.getShard key = ring.ring[position]? := by
    intro point listed least found
    have stored : ring.ring[point.1]? = some point.2 :=
      Std.ExtTreeMap.mem_toList_iff_getElem?_eq_some.mp listed
    refine ⟨point.1, ⟨?_, ?_⟩, found.trans stored.symm⟩
    · exact Std.ExtTreeMap.mem_iff_isSome_getElem?.mpr (by rw [stored]; rfl)
    · intro other member
      have known := Std.ExtTreeMap.getElem?_eq_some_getElem member
      exact least (other, _) (Std.ExtTreeMap.mem_toList_iff_getElem?_eq_some.mpr known)
  have nonempty : ring.ring.isEmpty ≠ true := fun empty => filled (Std.ExtTreeMap.isEmpty_iff.mp empty)
  cases found : ring.ring.toList.find? (fun point => hash key ≤ point.1) with
  | some point =>
      apply points point (List.mem_of_find?_eq_some found)
      · exact fun other listed => least_of_find ring.ascending found listed
      · rw [getShard, if_neg nonempty, found]
  | none =>
      cases first : ring.ring.toList.head? with
      | none =>
          have none := List.head?_eq_none_iff.mp first
          exact absurd (Std.ExtTreeMap.toList_eq_nil_iff.mp none) filled
      | some point =>
          apply points point (List.mem_of_mem_head? first)
          · exact fun other listed => least_of_head ring.ascending found first listed
          · rw [getShard, if_neg nonempty, found, first]
            rfl

theorem Nearest.unique {position other : UInt64} (nearest : Nearest ring place position)
    (too : Nearest ring place other) : other = position := by
  apply distance_injective place
  exact Int.le_antisymm (too.least position nearest.point) (nearest.least other too.point)

/-- No key has a shard on an empty ring only. -/
theorem getShard_eq_none : ring.getShard key = none <-> ring.ring = ∅ := by
  constructor
  · intro missing
    by_contra filled
    rcases exists_nearest filled key with ⟨position, nearest, found⟩
    have stored := Std.ExtTreeMap.mem_iff_isSome_getElem?.mp nearest.point
    rw [← found, missing] at stored
    cases stored
  · intro empty
    rw [getShard, if_pos (Std.ExtTreeMap.isEmpty_iff.mpr empty)]

/-- A key has the shard of the nearest point. -/
theorem getShard_eq_some : ring.getShard key = some shardId <->
    Exists fun position : UInt64 => ring.ring[position]? = some shardId ∧
      Nearest ring (hash key) position := by
  constructor
  · intro found
    have filled : ring.ring ≠ ∅ := by
      intro empty
      rw [getShard_eq_none.mpr empty] at found
      cases found
    rcases exists_nearest filled key with ⟨position, nearest, same⟩
    exact ⟨position, same.symm.trans found, nearest⟩
  · rintro ⟨position, stored, nearest⟩
    have filled : ring.ring ≠ ∅ := by
      intro empty
      rw [empty, Std.ExtTreeMap.getElem?_empty] at stored
      cases stored
    rcases exists_nearest filled key with ⟨other, too, found⟩
    rw [found, nearest.unique too, stored]

/-- **Lookups find the nearest point.**  A key has no shard exactly if the ring is
empty.  Otherwise it has the shard of the one point with the least distance from its
hash. -/
theorem getShard_nearest (ring : HashRing) (key : String) :
    (ring.getShard key = none <-> ring.ring = ∅) ∧
    (ring.ring ≠ ∅ -> Exists fun position => Nearest ring (hash key) position ∧
      (forall other, Nearest ring (hash key) other -> other = position) ∧
      ring.getShard key = ring.ring[position]?) := by
  refine ⟨getShard_eq_none, fun filled => ?_⟩
  rcases exists_nearest filled key with ⟨position, nearest, found⟩
  exact ⟨position, nearest, fun other too => nearest.unique too, found⟩

/-- A ring with one point. -/
theorem getShard_nearest_alone :
    ((new 1).addShard 7).ring ≠ ∅ ∧ Exists fun position =>
      Nearest ((new 1).addShard 7) (hash "k") position ∧
      (forall other, Nearest ((new 1).addShard 7) (hash "k") other -> other = position) ∧
      ((new 1).addShard 7).getShard "k" = ((new 1).addShard 7).ring[position]? := by
  have filled : ((new 1).addShard 7).ring ≠ ∅ := addShard_ne_empty (by decide) 7
  exact ⟨filled, (getShard_nearest ((new 1).addShard 7) "k").2 filled⟩

end Lookups

/-! ## Changes of the ring -/

section Changes

variable {ring smaller : HashRing} {place position : UInt64}

/-- The nearest point is the nearest one of fewer points, if it is among them. -/
theorem Nearest.of_subset (nearest : Nearest ring place position)
    (subset : forall other, other ∈ smaller.ring -> other ∈ ring.ring)
    (kept : position ∈ smaller.ring) : Nearest smaller place position :=
  ⟨kept, fun other member => nearest.least other (subset other member)⟩

theorem mem_of_getElem? {shardId : Nat} (stored : ring.ring[position]? = some shardId) :
    position ∈ ring.ring :=
  Std.ExtTreeMap.mem_iff_isSome_getElem?.mpr (by rw [stored]; rfl)

/-- Adding a shard displaces points and takes none away. -/
theorem mem_addShard (added : Nat) (member : position ∈ ring.ring) :
    position ∈ (ring.addShard added).ring := by
  apply Std.ExtTreeMap.mem_iff_isSome_getElem?.mpr
  rw [getElem?_addShard]
  split
  · rfl
  · exact Std.ExtTreeMap.mem_iff_isSome_getElem?.mp member

theorem mem_of_mem_removeShard {removed : Nat} (member : position ∈ (ring.removeShard removed).ring) :
    position ∈ ring.ring := by
  have known := Std.ExtTreeMap.getElem?_eq_some_getElem member
  exact mem_of_getElem? ((getElem?_removeShard ring removed position _).mp known).1

/-- After a shard was added, a key has its shard as before or the new one. -/
theorem getShard_addShard (ring : HashRing) (added : Nat) (key : String) :
    (ring.addShard added).getShard key = ring.getShard key ∨
      (ring.addShard added).getShard key = some added := by
  cases found : (ring.addShard added).getShard key with
  | none =>
      left
      have empty := getShard_eq_none.mp found
      refine (getShard_eq_none.mpr ?_).symm
      by_contra filled
      rcases exists_nearest filled key with ⟨position, nearest, _⟩
      have member := mem_addShard added nearest.point
      rw [empty] at member
      exact Std.ExtTreeMap.not_mem_empty member
  | some shardId =>
      rcases getShard_eq_some.mp found with ⟨position, stored, nearest⟩
      rcases own_or_earlier stored with rfl | earlier
      · exact Or.inr rfl
      · left
        refine (getShard_eq_some.mpr ⟨position, earlier, ?_⟩).symm
        exact nearest.of_subset (fun other => mem_addShard added) (mem_of_getElem? earlier)

/-- After a shard was removed, a key of another shard has it as before. -/
theorem getShard_removeShard_of_ne {removed other : Nat} {key : String}
    (found : ring.getShard key = some other) (different : other ≠ removed) :
    (ring.removeShard removed).getShard key = some other := by
  rcases getShard_eq_some.mp found with ⟨position, stored, nearest⟩
  have kept := (getElem?_removeShard ring removed position other).mpr ⟨stored, different⟩
  refine getShard_eq_some.mpr ⟨position, kept, ?_⟩
  exact nearest.of_subset (fun other => mem_of_mem_removeShard) (mem_of_getElem? kept)

/-- After a shard was removed, every key has another shard of the ring, or no other
shard has a point. -/
theorem getShard_removeShard (ring : HashRing) (removed : Nat) (key : String) :
    (Exists fun other => (ring.removeShard removed).getShard key = some other ∧ other ≠ removed ∧
      Exists fun position : UInt64 => ring.ring[position]? = some other) ∨
    ((ring.removeShard removed).getShard key = none ∧
      forall (position : UInt64) other, ring.ring[position]? = some other -> other = removed) := by
  cases found : (ring.removeShard removed).getShard key with
  | none =>
      right
      refine ⟨rfl, fun position other stored => ?_⟩
      by_contra different
      have kept := (getElem?_removeShard ring removed position other).mpr ⟨stored, different⟩
      rw [getShard_eq_none.mp found, Std.ExtTreeMap.getElem?_empty] at kept
      cases kept
  | some other =>
      left
      rcases getShard_eq_some.mp found with ⟨position, stored, _⟩
      have kept := (getElem?_removeShard ring removed position other).mp stored
      exact ⟨other, rfl, kept.2, position, kept.1⟩

/-- **Minimal disruption.**  On any ring, a shard that is added takes keys and moves no
others, and a shard that is removed gives its keys to other shards of the ring, if
there are any, and moves no others. -/
theorem minimal_disruption (ring : HashRing) (shardId : Nat) (key : String) :
    ((ring.addShard shardId).getShard key = ring.getShard key ∨
      (ring.addShard shardId).getShard key = some shardId) ∧
    (forall other, ring.getShard key = some other -> other ≠ shardId ->
      (ring.removeShard shardId).getShard key = some other) ∧
    (ring.getShard key = some shardId ->
      (Exists fun other => (ring.removeShard shardId).getShard key = some other ∧
        other ≠ shardId ∧ Exists fun position : UInt64 => ring.ring[position]? = some other) ∨
      ((ring.removeShard shardId).getShard key = none ∧
        forall (position : UInt64) other, ring.ring[position]? = some other -> other = shardId)) :=
  ⟨getShard_addShard ring shardId key, fun _ => getShard_removeShard_of_ne,
    fun _ => getShard_removeShard ring shardId key⟩

set_option maxRecDepth 100000 in
/-- Two shards on a ring.  A key of the first keeps it when the second goes, and a key
of the second gets another. -/
theorem minimal_disruption_pair :
    ((((new 2).addShard 1).addShard 2).removeShard 2).getShard "name" = some 1 ∧
    Exists fun other => ((((new 2).addShard 1).addShard 2).removeShard 2).getShard "k" =
      some other ∧ other ≠ 2 := by
  have first : (((new 2).addShard 1).addShard 2).getShard "name" = some 1 := by decide +kernel
  have second : (((new 2).addShard 1).addShard 2).getShard "k" = some 2 := by decide +kernel
  constructor
  · exact (minimal_disruption (((new 2).addShard 1).addShard 2) 2 "name").2.1 1 first (by decide)
  · rcases (minimal_disruption (((new 2).addShard 1).addShard 2) 2 "k").2.2 second with
      ⟨other, found, different, _⟩ | ⟨_, all⟩
    · exact ⟨other, found, different⟩
    · rcases getShard_eq_some.mp first with ⟨position, stored, _⟩
      exact absurd (all position 1 stored) (by decide)

end Changes
end HashRing
end Sharding
end RaftStore
