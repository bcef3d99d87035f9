import Mathlib.Data.List.Basic

namespace RaftStore
namespace Collections

/-!
# Streams of items

Items are written one behind the other, without anything between them.  If each item
tells where it ends, whatever comes behind it, a reader that takes item after item
gets all of them back and leaves nothing.
-/

section Streams

variable {α β γ : Type}

/-- Read items until nothing is left, at most so many. -/
def readWithin (read : List β -> Option (γ × List β)) : Nat -> List β -> Option (List γ)
  | _, [] => some []
  | 0, _ :: _ => none
  | turns + 1, symbol :: symbols => do
      let (item, rest) <- read (symbol :: symbols)
      let items <- readWithin read turns rest
      return item :: items

/-- Read items until nothing is left.  An item takes a symbol at least. -/
def readAll (read : List β -> Option (γ × List β)) (symbols : List β) : Option (List γ) :=
  readWithin read symbols.length symbols

variable {read : List β -> Option (γ × List β)} {write : α -> List β} {image : α -> γ}
  {items : List α}

theorem length_le_flatMap (visible : forall item, item ∈ items -> write item ≠ []) :
    items.length ≤ (items.flatMap write).length := by
  induction items with
  | nil => exact Nat.le_refl _
  | cons item rest inductionHypothesis =>
      have later := inductionHypothesis fun other listed => visible other (List.mem_cons_of_mem _ listed)
      have here := List.length_pos_iff.mpr (visible item List.mem_cons_self)
      rw [List.flatMap_cons, List.length_append, List.length_cons]
      omega

theorem readWithin_flatMap {turns : Nat} (enough : items.length ≤ turns)
    (back : forall item, item ∈ items -> forall rest,
      read (write item ++ rest) = some (image item, rest))
    (visible : forall item, item ∈ items -> write item ≠ []) :
    readWithin read turns (items.flatMap write) = some (items.map image) := by
  induction items generalizing turns with
  | nil => cases turns <;> rfl
  | cons item rest inductionHypothesis =>
      cases turns with
      | zero => cases enough
      | succ turns =>
          have later := inductionHypothesis (Nat.le_of_succ_le_succ enough)
            (fun other listed => back other (List.mem_cons_of_mem _ listed))
            (fun other listed => visible other (List.mem_cons_of_mem _ listed))
          have here := back item List.mem_cons_self (rest.flatMap write)
          rcases List.exists_cons_of_ne_nil (visible item List.mem_cons_self) with
            ⟨symbol, symbols, written⟩
          rw [List.flatMap_cons, written, List.cons_append, readWithin, ← List.cons_append, ← written,
            here]
          change (do
            let items <- readWithin read turns (rest.flatMap write)
            some (image item :: items)) = some (image item :: rest.map image)
          rw [later]
          rfl

/-- Items that tell where they end are read back. -/
theorem readAll_flatMap
    (back : forall item, item ∈ items -> forall rest,
      read (write item ++ rest) = some (image item, rest))
    (visible : forall item, item ∈ items -> write item ≠ []) :
    readAll read (items.flatMap write) = some (items.map image) :=
  readWithin_flatMap (length_le_flatMap visible) back visible

end Streams
end Collections
end RaftStore
