import Mathlib.Algebra.Ring.GeomSum
import Mathlib.Data.Nat.ModEq
import Mathlib.NumberTheory.Multiplicity

namespace RaftStore
namespace Collections

/-!
# Linear congruential generators

A generator of pseudo-random numbers that multiplies and adds modulo a power of two.
Its structure carries the conditions under which it goes through all states before it
comes back to the first one.
-/

/-- The parameters of a generator with states of the given number of bits. -/
structure Congruential where
  bits : Nat
  factor : Nat
  increment : Nat
  bits_pos : 0 < bits
  factor_mod : factor % 4 = 1
  increment_mod : increment % 2 = 1

namespace Congruential

variable (generator : Congruential) {state other : Nat}

/-- The number of states. -/
def size : Nat := 2 ^ generator.bits

/-- The next state. -/
def next (state : Nat) : Nat := (state * generator.factor + generator.increment) % generator.size

/-- How far the first step goes, before it wraps around. -/
def stride (state : Nat) : Nat := (generator.factor - 1) * state + generator.increment

/-- The strides of so many steps, as a multiple of the first one. -/
def strides (count : Nat) : Nat := ∑ index ∈ Finset.range count, generator.factor ^ index

theorem size_pos : 0 < generator.size := Nat.two_pow_pos _

theorem two_dvd_size : 2 ∣ generator.size := dvd_pow_self 2 (Nat.ne_of_gt generator.bits_pos)

theorem next_lt (state : Nat) : generator.next state < generator.size :=
  Nat.mod_lt _ generator.size_pos

theorem iterate_lt (below : state < generator.size) (count : Nat) :
    generator.next^[count] state < generator.size := by
  cases count with
  | zero => exact below
  | succ count =>
      rw [Function.iterate_succ_apply']
      exact generator.next_lt _

/-- The lowest bit changes at every step. -/
theorem next_mod_two (state : Nat) : generator.next state % 2 = (state + 1) % 2 := by
  have factor := generator.factor_mod
  have increment := generator.increment_mod
  have odd : generator.factor % 2 = 1 := by omega
  rw [next, Nat.mod_mod_of_dvd _ generator.two_dvd_size, Nat.add_mod, Nat.mul_mod, odd, increment]
  omega

/-! ## Many steps at once -/

theorem stride_odd (state : Nat) : ¬ 2 ∣ generator.stride state := by
  have odd := generator.factor_mod
  have even : 2 ∣ (generator.factor - 1) * state := Dvd.dvd.mul_right (by omega) state
  have increment := generator.increment_mod
  unfold stride
  omega

theorem iterate_modEq (state count : Nat) :
    generator.next^[count] state ≡
      state + generator.strides count * generator.stride state [MOD generator.size] := by
  induction count with
  | zero => simp [strides, Nat.ModEq.refl]
  | succ count inductionHypothesis =>
      have factor : generator.factor = generator.factor - 1 + 1 := by
        have odd := generator.factor_mod
        omega
      rw [Function.iterate_succ_apply']
      calc
        generator.next (generator.next^[count] state)
          ≡ generator.next^[count] state * generator.factor + generator.increment
            [MOD generator.size] := Nat.mod_modEq _ _
        _ ≡ (state + generator.strides count * generator.stride state) * generator.factor +
            generator.increment [MOD generator.size] :=
          (inductionHypothesis.mul_right _).add_right _
        _ = state + generator.strides (count + 1) * generator.stride state := by
          unfold strides
          rw [geom_sum_succ]
          unfold stride
          generalize generator.factor - 1 = drift at factor
          rw [factor]
          ring

/-- A sum of powers of the factor is as even as the number of its terms. -/
theorem emultiplicity_strides (count : Nat) :
    emultiplicity 2 (generator.strides count : Int) = emultiplicity 2 (count : Int) := by
  have odd := generator.factor_mod
  by_cases trivial : generator.factor = 1
  · simp [strides, trivial]
  · have sum : (generator.strides count : Int) * (generator.factor - 1) =
        (generator.factor : Int) ^ count - 1 ^ count := by
      rw [one_pow, strides, Nat.cast_sum]
      simp only [Nat.cast_pow]
      exact geom_sum_mul _ _
    have lifted := Int.two_pow_sub_pow' (x := generator.factor) (y := 1) count
      (by omega) (by omega)
    rw [← sum, emultiplicity_mul Int.prime_two, add_comm] at lifted
    have finite : emultiplicity 2 ((generator.factor : Int) - 1) ≠ ⊤ := by
      apply finiteMultiplicity_iff_emultiplicity_ne_top.mp
      exact Int.finiteMultiplicity_iff.mpr ⟨by decide, by omega⟩
    exact ENat.add_right_injective_of_ne_top finite lifted

theorem two_pow_dvd_strides (power count : Nat) :
    2 ^ power ∣ generator.strides count <-> 2 ^ power ∣ count := by
  rw [← Int.natCast_dvd_natCast, ← Int.natCast_dvd_natCast, Nat.cast_pow, Nat.cast_ofNat,
    pow_dvd_iff_le_emultiplicity, pow_dvd_iff_le_emultiplicity, generator.emultiplicity_strides]

theorem size_dvd_strides (count : Nat) :
    generator.size ∣ generator.strides count <-> generator.size ∣ count :=
  generator.two_pow_dvd_strides generator.bits count

theorem size_dvd_mul_stride (value state : Nat) :
    generator.size ∣ value * generator.stride state <-> generator.size ∣ value := by
  have coprime : Nat.Coprime generator.size (generator.stride state) := by
    apply Nat.Coprime.pow_left
    exact (Nat.Prime.coprime_iff_not_dvd Nat.prime_two).mpr (generator.stride_odd state)
  exact coprime.dvd_mul_right

/-! ## The cycle -/

/-- A state comes again after all the others, and not before. -/
theorem iterate_eq_self_iff (below : state < generator.size) (count : Nat) :
    generator.next^[count] state = state <-> generator.size ∣ count := by
  rw [← size_dvd_strides, ← generator.size_dvd_mul_stride _ state]
  have steps := generator.iterate_modEq state count
  constructor
  · intro same
    rw [same] at steps
    have moved : state + 0 ≡ state + generator.strides count * generator.stride state
        [MOD generator.size] := steps
    exact (Nat.modEq_zero_iff_dvd).mp (Nat.ModEq.add_left_cancel' state moved).symm
  · intro divides
    have still : state + generator.strides count * generator.stride state ≡ state + 0
        [MOD generator.size] := ((Nat.modEq_zero_iff_dvd).mpr divides).add_left state
    exact (steps.trans still).eq_of_lt_of_lt (generator.iterate_lt below count) below

theorem iterate_injOn (below : state < generator.size) :
    Set.InjOn (fun count => generator.next^[count] state) (Finset.range generator.size) := by
  have ordered : forall first second, first ≤ second -> second < generator.size ->
      generator.next^[first] state = generator.next^[second] state -> first = second := by
    intro first second le bound same
    rw [← Nat.sub_add_cancel le, Function.iterate_add_apply] at same
    have period := (generator.iterate_eq_self_iff (generator.iterate_lt below first) _).mp same.symm
    have equal := Nat.eq_zero_of_dvd_of_lt period (by omega)
    omega
  intro first firstBound second secondBound same
  rcases Nat.le_total first second with le | le
  · exact ordered first second le (Finset.mem_range.mp secondBound) same
  · exact (ordered second first le (Finset.mem_range.mp firstBound) same.symm).symm

/-- From any state every state is reached. -/
theorem exists_iterate_eq (below : state < generator.size) (target : other < generator.size) :
    Exists fun count => count < generator.size ∧ generator.next^[count] state = other := by
  have maps : Set.MapsTo (fun count => generator.next^[count] state)
      (Finset.range generator.size) (Finset.range generator.size) :=
    fun count _ => Finset.mem_coe.mpr (Finset.mem_range.mpr (generator.iterate_lt below count))
  rcases Finset.surjOn_of_injOn_of_card_le _ maps (generator.iterate_injOn below)
    (Nat.le_refl _) (Finset.mem_coe.mpr (Finset.mem_range.mpr target)) with ⟨count, bound, reached⟩
  exact ⟨count, Finset.mem_range.mp bound, reached⟩

/-! ## Half of the cycle -/

/-- Half of the number of states. -/
def half : Nat := 2 ^ (generator.bits - 1)

theorem size_eq : generator.size = 2 * generator.half := by
  have positive := generator.bits_pos
  rw [half, ← pow_succ', size]
  congr 1
  omega

/-- An odd multiple of half of the number of states. -/
theorem modEq_half {value : Nat} (divides : generator.half ∣ value)
    (not : ¬ generator.size ∣ value) : value ≡ generator.half [MOD generator.size] := by
  rcases divides with ⟨quotient, rfl⟩
  have odd : quotient % 2 = 1 := by
    by_contra even
    have two : 2 ∣ quotient := by omega
    rcases two with ⟨rest, rfl⟩
    exact not ⟨rest, by rw [size_eq]; ring⟩
  have parts : quotient = 2 * (quotient / 2) + 1 := by omega
  rw [parts]
  have split : generator.half * (2 * (quotient / 2) + 1) =
      generator.size * (quotient / 2) + generator.half := by
    rw [size_eq]
    ring
  rw [split]
  exact Nat.ModEq.symm (by simp [Nat.ModEq, Nat.add_mod])

/-- After half of the cycle a state is as far away as can be. -/
theorem iterate_half (state : Nat) :
    generator.next^[generator.half] state ≡ state + generator.half [MOD generator.size] := by
  refine (generator.iterate_modEq state _).trans (Nat.ModEq.add_left _ ?_)
  apply generator.modEq_half
  · exact Dvd.dvd.mul_right ((generator.two_pow_dvd_strides _ _).mpr (dvd_refl _)) _
  · rw [size_dvd_mul_stride, size_dvd_strides, size_eq]
    have positive : 0 < generator.half := Nat.two_pow_pos _
    intro divides
    have bound := Nat.le_of_dvd positive divides
    omega

/-- A state and the one half of the cycle away from it differ modulo any number that does
not divide this half. -/
theorem mod_opposite_ne {modulus : Nat} (not : ¬ modulus ∣ generator.half)
    (below : state < generator.size) :
    (state + generator.half) % generator.size % modulus ≠ state % modulus := by
  have shifted : forall lower, (lower + generator.half) % modulus ≠ lower % modulus := by
    intro lower same
    have moved : lower + generator.half ≡ lower + 0 [MOD modulus] := same
    exact not (Nat.modEq_zero_iff_dvd.mp (Nat.ModEq.add_left_cancel' lower moved))
  rw [size_eq] at below ⊢
  by_cases low : state < generator.half
  · have inside : (state + generator.half) % (2 * generator.half) = state + generator.half :=
      Nat.mod_eq_of_lt (by omega)
    rw [inside]
    exact shifted state
  · have wrapped : (state + generator.half) % (2 * generator.half) = state - generator.half := by
      rw [Nat.mod_eq_sub_mod (by omega), Nat.mod_eq_of_lt (by omega)]
      omega
    rw [wrapped]
    intro same
    apply shifted (state - generator.half)
    rw [Nat.sub_add_cancel (Nat.le_of_not_lt low)]
    exact same.symm

/-- However far a state lags behind another one, some multiple of that is half of the
cycle. -/
theorem exists_mul_eq_half {lag : Nat} (positive : lag ≠ 0) (bound : lag < generator.size) :
    Exists fun times => Exists fun rounds =>
      times * lag = generator.half + generator.size * rounds := by
  rcases Nat.exists_eq_two_pow_mul_odd positive with ⟨power, part, ⟨rest, rfl⟩, rfl⟩
  have below : power < generator.bits := by
    apply (Nat.pow_lt_pow_iff_right (by decide : 1 < 2)).mp
    exact Nat.lt_of_le_of_lt (Nat.le_mul_of_pos_right _ (Nat.succ_pos _)) bound
  refine ⟨2 ^ (generator.bits - 1 - power), rest, ?_⟩
  have joined : 2 ^ (generator.bits - 1 - power) * 2 ^ power = generator.half := by
    rw [← pow_add, half]
    congr 1
    omega
  rw [← Nat.mul_assoc, joined, size_eq]
  ring

/-! ## Readings -/

section Readings

variable {α : Type} (reading : Nat -> α)

/-- What is read from some state is read again and again. -/
theorem exists_reading_eq (below : state < generator.size) (target : other < generator.size)
    (start : Nat) : Exists fun count => start ≤ count ∧
      reading (generator.next^[count] state) = reading other := by
  rcases generator.exists_iterate_eq (generator.iterate_lt below start) target with
    ⟨count, _, reached⟩
  refine ⟨count + start, Nat.le_add_left _ _, ?_⟩
  rw [Function.iterate_add_apply, reached]

/-- Two generators in different states do not go on giving the same readings, if the
reading tells the two halves of the cycle apart. -/
theorem exists_reading_ne
    (apart : forall state, state < generator.size ->
      reading ((state + generator.half) % generator.size) ≠ reading state)
    (below : state < generator.size) (target : other < generator.size) (different : state ≠ other)
    (start : Nat) : Exists fun count => start ≤ count ∧
      reading (generator.next^[count] state) ≠ reading (generator.next^[count] other) := by
  by_contra never
  have agree : forall count, start ≤ count ->
      reading (generator.next^[count] state) = reading (generator.next^[count] other) := by
    intro count late
    by_contra differ
    exact never ⟨count, late, differ⟩
  rcases generator.exists_iterate_eq below target with ⟨lag, bound, reached⟩
  have positive : lag ≠ 0 := by
    rintro rfl
    exact different reached
  -- the readings repeat with the lag, so they repeat with every multiple of it
  have repeats : forall times, reading (generator.next^[start + times * lag] state) =
      reading (generator.next^[start] state) := by
    intro times
    induction times with
    | zero => rw [Nat.zero_mul, Nat.add_zero]
    | succ times inductionHypothesis =>
        rw [Nat.succ_mul, ← Nat.add_assoc, Function.iterate_add_apply _ _ lag, reached,
          ← agree _ (Nat.le_add_right _ _)]
        exact inductionHypothesis
  rcases generator.exists_mul_eq_half positive bound with ⟨times, rounds, multiple⟩
  have here := generator.iterate_lt below start
  have round : generator.next^[generator.size * rounds] (generator.next^[start] state) =
      generator.next^[start] state :=
    (generator.iterate_eq_self_iff here _).mpr (Nat.dvd_mul_right _ _)
  have opposite : generator.next^[generator.half] (generator.next^[start] state) =
      (generator.next^[start] state + generator.half) % generator.size := by
    rw [← Nat.mod_eq_of_lt (generator.iterate_lt here generator.half)]
    exact generator.iterate_half _
  have same := repeats times
  rw [multiple, Nat.add_comm start, Function.iterate_add_apply, Function.iterate_add_apply, round,
    opposite] at same
  exact apart _ here same

end Readings
end Congruential
end Collections
end RaftStore
