import Mathlib.Logic.Function.Basic
import Mathlib.Data.List.Basic

namespace RaftStore
namespace Collections

/-!
# Mixing without loss

A hash that goes over its input symbol by symbol loses information only where two
states meet in one step.  If each step can be undone, both for the state and for
the symbol, then inputs that differ in a single place never meet.  Two operations
on words that can be undone are the multiplication by a word with an inverse and
the combination of a word with its own upper part.
-/

/-! ## Words -/

section Words

variable {width amount : Nat}

/-- A word that is combined twice with its upper part, at most half of it, is the word
again. -/
theorem xorShift_xorShift (enough : width ≤ amount + amount) (word : BitVec width) :
    (word ^^^ word >>> amount) ^^^ (word ^^^ word >>> amount) >>> amount = word := by
  have gone : word >>> (amount + amount) = BitVec.ofNat width 0 := BitVec.ushiftRight_eq_zero enough
  rw [BitVec.ushiftRight_xor_distrib, ← BitVec.shiftRight_add, gone, BitVec.xor_zero,
    BitVec.xor_assoc, BitVec.xor_self, BitVec.xor_zero]

theorem xorShift_injective (enough : width ≤ amount + amount) :
    Function.Injective fun word : BitVec width => word ^^^ word >>> amount := by
  intro left right same
  change left ^^^ left >>> amount = right ^^^ right >>> amount at same
  calc
    left = (left ^^^ left >>> amount) ^^^ (left ^^^ left >>> amount) >>> amount :=
      (xorShift_xorShift enough left).symm
    _ = (right ^^^ right >>> amount) ^^^ (right ^^^ right >>> amount) >>> amount := by rw [same]
    _ = right := xorShift_xorShift enough right

theorem mul_injective_of_inverse {factor inverse : UInt64} (unit : factor * inverse = 1) :
    Function.Injective fun word : UInt64 => word * factor := by
  have undo : forall word : UInt64, word * factor * inverse = word := by
    intro word
    rw [UInt64.mul_assoc, unit, UInt64.mul_one]
  intro left right same
  change left * factor = right * factor at same
  rw [← undo left, same, undo right]

end Words

/-! ## Folds -/

section Folds

variable {α σ : Type} {step : σ -> α -> σ}

/-- Two lists of the same length that differ in exactly one place. -/
structure DifferOnce (left right : List α) : Prop where
  length : left.length = right.length
  place : Exists fun index : Nat => left[index]? ≠ right[index]? ∧
    forall other, other ≠ index -> left[other]? = right[other]?

/-- Lists that differ once do so at their heads or behind them. -/
theorem DifferOnce.cases_cons {first second : α} {left right : List α}
    (differ : DifferOnce (first :: left) (second :: right)) :
    (first ≠ second ∧ left = right) ∨ (first = second ∧ DifferOnce left right) := by
  rcases differ with ⟨length, index, unequal, elsewhere⟩
  cases index with
  | zero =>
      left
      constructor
      · rintro rfl
        exact unequal rfl
      · apply List.ext_getElem?
        intro position
        exact elsewhere (position + 1) (Nat.succ_ne_zero position)
  | succ index =>
      right
      constructor
      · exact Option.some.inj (elsewhere 0 (Nat.succ_ne_zero index).symm)
      · refine ⟨Nat.succ.inj length, index, unequal, ?_⟩
        intro other different
        exact elsewhere (other + 1) (fun same => different (Nat.succ.inj same))

/-- A fold of steps that can be undone can be undone. -/
theorem foldl_injective (keeps : forall symbol, Function.Injective fun state => step state symbol)
    (symbols : List α) : Function.Injective fun state => symbols.foldl step state := by
  induction symbols with
  | nil => exact fun _ _ same => same
  | cons symbol rest inductionHypothesis =>
      intro left right same
      exact keeps symbol (inductionHypothesis same)

/-- Inputs that differ once are told apart by steps that can be undone. -/
theorem foldl_ne_of_differOnce
    (keeps : forall symbol, Function.Injective fun state => step state symbol)
    (tells : forall state, Function.Injective (step state)) {left right : List α}
    (differ : DifferOnce left right) (start : σ) :
    left.foldl step start ≠ right.foldl step start := by
  induction left generalizing right start with
  | nil =>
      cases right with
      | nil =>
          rcases differ.place with ⟨_, unequal, _⟩
          exact absurd rfl unequal
      | cons second right => cases differ.length
  | cons first left inductionHypothesis =>
      cases right with
      | nil => cases differ.length
      | cons second right =>
          rw [List.foldl_cons, List.foldl_cons]
          rcases differ.cases_cons with ⟨unequal, rfl⟩ | ⟨rfl, behind⟩
          · intro same
            exact unequal (tells start (foldl_injective keeps left same))
          · exact inductionHypothesis behind (step start first)

end Folds
end Collections
end RaftStore
