import RaftStore.Collections.Mixing
import RaftStore.Collections.Texts
import RaftStore.Sharding.Router

namespace RaftStore
namespace Sharding
namespace HashRing

open Collections

/-!
# The hash of the ring

The hash goes over the bytes of a text with FNV-1a and mixes the result with three
shifts and two multiplications.  The factors are odd, and each shift is by more
than half a word.  So no step loses anything, and texts that differ in one byte
stand at different positions.
-/

/-- One step of FNV-1a. -/
def fnvStep (hash : UInt64) (byte : UInt8) : UInt64 :=
  (hash ^^^ byte.toUInt64) * 0x100000001b3

/-- The finalizer: three shifts, and a multiplication after the first two. -/
def finalizer (hash : UInt64) : UInt64 :=
  let hash := (hash ^^^ (hash >>> 33)) * 0xff51afd7ed558ccd
  let hash := (hash ^^^ (hash >>> 33)) * 0xc4ceb9fe1a85ec53
  hash ^^^ (hash >>> 33)

/-- The hash of some bytes, which need not be a text. -/
def hashBytes (bytes : List UInt8) : UInt64 :=
  finalizer (bytes.foldl fnvStep 0xcbf29ce484222325)

theorem hash_eq (key : String) : hash key = hashBytes (bytesOf key) := by
  unfold hashBytes bytesOf
  rw [Array.foldl_toList]
  rfl

theorem shift_injective : Function.Injective fun word : UInt64 => word ^^^ (word >>> 33) := by
  intro left right same
  apply UInt64.toBitVec_inj.mp
  exact xorShift_injective (show 64 ≤ 33 + 33 by decide) (congrArg UInt64.toBitVec same)

/-- The finalizer loses nothing. -/
theorem finalizer_injective : Function.Injective finalizer := by
  have first : Function.Injective fun word : UInt64 => word * 0xff51afd7ed558ccd :=
    mul_injective_of_inverse (show _ * 0x4f74430c22a54005 = 1 by decide)
  have second : Function.Injective fun word : UInt64 => word * 0xc4ceb9fe1a85ec53 :=
    mul_injective_of_inverse (show _ * 0x9cb4b2f8129337db = 1 by decide)
  intro left right same
  exact shift_injective (first (shift_injective (second (shift_injective same))))

theorem prime_injective : Function.Injective fun word : UInt64 => word * 0x100000001b3 :=
  mul_injective_of_inverse (show _ * 0xce965057aff6957b = 1 by decide)

/-- A step loses nothing of the state. -/
theorem fnvStep_keeps (byte : UInt8) : Function.Injective fun hash => fnvStep hash byte := by
  intro left right same
  exact (UInt64.xor_left_inj byte.toUInt64).mp (prime_injective same)

/-- A step loses nothing of the byte. -/
theorem fnvStep_tells (hash : UInt64) : Function.Injective (fnvStep hash) := by
  intro left right same
  exact UInt8.toUInt64_inj.mp ((UInt64.xor_right_inj hash).mp (prime_injective same))

theorem hashBytes_ne {left right : List UInt8} (differ : DifferOnce left right) :
    hashBytes left ≠ hashBytes right := by
  intro same
  exact foldl_ne_of_differOnce fnvStep_keeps fnvStep_tells differ _ (finalizer_injective same)

/-- **One byte matters.**  Texts, and any bytes, of the same length that differ in
one place have different hashes: the finalizer and each step lose nothing, neither of
the state nor of the byte. -/
theorem hash_separates :
    (forall key other : String, DifferOnce (bytesOf key) (bytesOf other) -> hash key ≠ hash other) ∧
    (forall left right : List UInt8, DifferOnce left right -> hashBytes left ≠ hashBytes right) ∧
    Function.Injective finalizer ∧
    (forall byte, Function.Injective fun hash => fnvStep hash byte) ∧
    forall hash, Function.Injective (fnvStep hash) := by
  refine ⟨?_, fun left right => hashBytes_ne, finalizer_injective, fnvStep_keeps, fnvStep_tells⟩
  intro key other differ
  rw [hash_eq, hash_eq]
  exact hashBytes_ne differ

/-- Two virtual nodes of a shard. -/
theorem hash_separates_virtualNodes :
    hash (virtualNode 1 0) ≠ hash (virtualNode 1 1) := by
  apply hash_separates.1
  have inside : forall other, other < 15 -> other ≠ 14 ->
      (bytesOf (virtualNode 1 0))[other]? = (bytesOf (virtualNode 1 1))[other]? := by decide +kernel
  have first : (bytesOf (virtualNode 1 0)).length = 15 := by decide +kernel
  have second : (bytesOf (virtualNode 1 1)).length = 15 := by decide +kernel
  refine ⟨first.trans second.symm, 14, by decide +kernel, ?_⟩
  intro other different
  by_cases bound : other < 15
  · exact inside other bound different
  · rw [List.getElem?_eq_none (by omega), List.getElem?_eq_none (by omega)]

end HashRing
end Sharding
end RaftStore
