import Mathlib.Data.List.Sort
import Mathlib.Order.Bounds.Defs

namespace RaftStore
namespace Collections

/-!
# Ranking

Order statistics of a list, and scans for the last index with a property.  A
bound lies at or below the value of some rank exactly if that many values reach
it, so that counting the values above a bound and comparing the bound with an
order statistic are the same test.
-/

section Ranking

variable {α : Type} [LinearOrder α]

/-- The value of the given rank: rank 1 is the greatest value. -/
def nthLargest (values : List α) (rank : Nat) : Option α :=
  (values.insertionSort (· ≥ ·))[rank - 1]?

/-- In a descending list the values that reach a bound are the first ones. -/
theorem le_getElem_iff {values : List α} (descending : values.Pairwise (· ≥ ·)) (bound : α)
    {index : Nat} {value : α} (found : values[index]? = some value) :
    bound ≤ value <-> index < values.countP (fun value => bound ≤ value) := by
  induction values generalizing index with
  | nil => simp at found
  | cons head rest inductionHypothesis =>
      rcases List.pairwise_cons.mp descending with ⟨greatest, ordered⟩
      by_cases reaches : bound ≤ head
      · rw [List.countP_cons_of_pos (by simpa using reaches)]
        cases index with
        | zero =>
            cases found
            exact iff_of_true reaches (Nat.zero_lt_succ _)
        | succ index =>
            rw [inductionHypothesis ordered (by simpa using found)]
            exact Nat.succ_lt_succ_iff.symm
      · have below : forall other, other ∈ head :: rest -> ¬ bound ≤ other := by
          intro other member reached
          rcases List.mem_cons.mp member with rfl | later
          · exact reaches reached
          · exact reaches (le_trans reached (greatest other later))
        have none : (head :: rest).countP (fun value => bound ≤ value) = 0 :=
          List.countP_eq_zero.mpr (fun other member => by simpa using below other member)
        rw [none]
        exact iff_of_false (below value (List.mem_of_getElem? found)) (Nat.not_lt_zero _)

/-- A bound is at or below the value of a rank exactly if at least that many
values reach the bound. -/
theorem le_nthLargest_iff {values : List α} {rank : Nat} {value : α} (positive : 1 ≤ rank)
    (ranked : nthLargest values rank = some value) (bound : α) :
    bound ≤ value <-> rank ≤ values.countP (fun value => bound ≤ value) := by
  rw [le_getElem_iff (List.pairwise_insertionSort (· ≥ ·) values) bound ranked,
    (List.perm_insertionSort (· ≥ ·) values).countP_eq]
  omega

theorem exists_nthLargest {values : List α} {rank : Nat} (positive : 1 ≤ rank)
    (inside : rank ≤ values.length) : Exists fun value => nthLargest values rank = some value := by
  have below : rank - 1 < (values.insertionSort (· ≥ ·)).length := by
    rw [List.length_insertionSort]
    omega
  exact ⟨_, List.getElem?_eq_getElem below⟩

end Ranking

section Scan

/-- The greatest element of a set, or a given one if the set is empty. -/
def IsGreatestOr (candidates : Set Nat) (default result : Nat) : Prop :=
  IsGreatest candidates result ∨ candidates = ∅ ∧ result = default

theorem IsGreatestOr.congr {p q : Nat -> Prop} {default result : Nat}
    (greatest : IsGreatestOr {index | p index} default result)
    (same : forall index, p index <-> q index) : IsGreatestOr {index | q index} default result := by
  have equal : p = q := funext fun index => propext (same index)
  rw [← equal]
  exact greatest

/-- A scan through an interval that keeps the last index with a property arrives
at the greatest one. -/
theorem isGreatestOr_foldl (p : Nat -> Prop) {keep : Nat -> Nat -> Nat}
    (taken : forall kept index, p index -> keep kept index = index)
    (skipped : forall kept index, ¬ p index -> keep kept index = kept) (start count default : Nat) :
    IsGreatestOr {index | start ≤ index ∧ index < start + count ∧ p index} default
      ((List.range' start count).foldl keep default) := by
  induction count with
  | zero =>
      refine Or.inr ⟨Set.eq_empty_of_forall_notMem ?_, rfl⟩
      rintro index ⟨above, below, _⟩
      omega
  | succ count inductionHypothesis =>
      rw [List.range'_concat, List.foldl_append, Nat.one_mul, List.foldl_cons, List.foldl_nil]
      by_cases last : p (start + count)
      · rw [taken _ _ last]
        refine Or.inl ⟨⟨by omega, by omega, last⟩, ?_⟩
        rintro index ⟨_, below, _⟩
        omega
      · have same : {index | start ≤ index ∧ index < start + (count + 1) ∧ p index} =
            {index | start ≤ index ∧ index < start + count ∧ p index} := by
          ext index
          constructor
          · rintro ⟨above, below, holds⟩
            have notLast : index ≠ start + count := by
              rintro rfl
              exact last holds
            exact ⟨above, by omega, holds⟩
          · rintro ⟨above, below, holds⟩
            exact ⟨above, by omega, holds⟩
        rw [same, skipped _ _ last]
        exact inductionHypothesis

end Scan
end Collections
end RaftStore
